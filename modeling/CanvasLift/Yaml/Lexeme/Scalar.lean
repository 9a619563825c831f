import CanvasLift.Yaml.Lexeme

/-!
Reading YAML scalars: plain ones, quoted ones, and blocks with their indentation. Lines that follow
each other are folded into one, except in a literal block.
-/

namespace CanvasLift.Yaml.Lex

/-- Consecutive line breaks. A marker between documents must not follow one of them. -/
def quotedBreaks : (fuel : Nat) → Lex Text
  | 0 => refuse
  | fuel + 1 => do
    if (← get).atMarker then refuse
    discard (takeWhile fun c ↦ c = ' ' || c = '\t')
    match ← lineBreak? with
    | some b => return b :: (← quotedBreaks fuel)
    | none => return []

/-- What a line break and the breaks after it stand for: a lone line feed for a space. -/
def foldBreaks (first : Char) (more : Text) : Text :=
  if first ≠ '\n' then first :: more
  else if more = [] then [' ']
  else more

def quotedSpaces : Lex Text := do
  let spaces ← takeWhile fun c ↦ c = ' ' || c = '\t'
  if (← peek 0).isNone then refuse
  match ← lineBreak? with
  | some b => return foldBreaks b (← quotedBreaks (← get).fuel)
  | none => return spaces

def escapes : List (Char × Char) :=
  [('0', '\x00'), ('a', '\x07'), ('b', '\x08'), ('t', '\t'), ('\t', '\t'), ('n', '\n'),
   ('v', '\x0b'), ('f', '\x0c'), ('r', '\r'), ('e', '\x1b'), (' ', ' '), ('"', '"'), ('\\', '\\'),
   ('/', '/'), ('N', '\x85'), ('_', '\xa0'), ('L', '\u2028'), ('P', '\u2029')]

def escapeWidth? : Char → Option Nat
  | 'x' => some 2
  | 'u' => some 4
  | 'U' => some 8
  | _ => none

def numberedSymbol (n : Nat) : Except Fault Symbol :=
  if 0x80000000 ≤ n then .error (.noCharacter true)
  else if 0x10FFFF < n then .error (.noCharacter false)
  else .ok (.ofNat n)

def escapeSequence : Lex WideText := do
  skip 1
  match ← peek 0 with
  | none => refuse
  | some c =>
    match escapes.lookup c, escapeWidth? c with
    | some d, _ =>
      skip 1
      return [.char d]
    | none, some width =>
      skip 1
      let digits := (← get).rest.take width
      match Text.hexValue? digits with
      | some n =>
        if digits.length < width then refuse
        let s ← numberedSymbol n
        skip width
        return [s]
      | none => refuse
    | none, none =>
      if isBreak c then
        discard lineBreak?
        return .ofText (← quotedBreaks (← get).fuel)
      else refuse

def quotedWords (double : Bool) : (fuel : Nat) → Lex WideText
  | 0 => refuse
  | fuel + 1 => do
    let plain : WideText := (← takeWhile fun c ↦
      c ≠ '\'' && c ≠ '"' && c ≠ '\\' && !endsWord (some c) : Text)
    let next ← peek 0
    if !double ∧ next = some '\'' ∧ (← peek 1) = some '\'' then
      skip 2
      return plain ++ .char '\'' :: (← quotedWords double fuel)
    else if double ∧ next = some '\'' ∨ !double ∧ (next = some '"' ∨ next = some '\\') then
      skip 1
      return plain ++ .ofText next.toList ++ (← quotedWords double fuel)
    else if double ∧ next = some '\\' then
      let escaped ← escapeSequence
      return plain ++ escaped ++ (← quotedWords double fuel)
    else return plain

def quotedRest (double : Bool) : (fuel : Nat) → Lex WideText
  | 0 => refuse
  | fuel + 1 => do
    let words ← quotedWords double (← get).fuel
    if (← peek 0) = some (if double then '"' else '\'') then
      skip 1
      return words
    let spaces ← quotedSpaces
    return words ++ .ofText spaces ++ (← quotedRest double fuel)

def quoted (double : Bool) : Lex WideText := do
  skip 1
  quotedRest double (← get).fuel

/-- Line breaks and the spaces after each, inside a plain scalar; `none` before a marker. -/
def plainBreaks : (fuel : Nat) → Lex (Option Text)
  | 0 => refuse
  | fuel + 1 => do
    if (← get).atMarker then return none
    skipSpaces
    match ← lineBreak? with
    | some b => return (← plainBreaks fuel).map (b :: ·)
    | none => return some []

/-- The white space between the words of a plain scalar, folded, and whether a line ended in it.
Nothing where the scalar ends. -/
def plainSpaces : Lex (Text × Bool) := do
  let spaces ← takeWhile (· = ' ')
  match ← lineBreak? with
  | some b =>
    let more ← plainBreaks (← get).fuel
    return ((more.map (foldBreaks b)).getD [], true)
  | none => return (spaces, false)

def endsPlain (inFlow : Bool) (c : Char) (next : Option Char) : Bool :=
  endsWord (some c) ||
    c = ':' && (endsWord next || inFlow && next.any (· ∈ ",[]\x7b\x7d".toList)) ||
    inFlow && c ∈ ",?[]\x7b\x7d".toList

def plainWord (inFlow : Bool) : Text → Text
  | [] => []
  | c :: rest => if endsPlain inFlow c rest.head? then [] else c :: plainWord inFlow rest

/-- The words of a plain scalar after the white space `spaces`, and whether a line ended after the
last of them. Outside brackets each further line is indented to `indent` at least. -/
def plainRest (inFlow : Bool) (indent : Nat) : (fuel : Nat) → Text → Bool → Lex (Text × Bool)
  | 0, _, _ => refuse
  | fuel + 1, spaces, lineEnded => do
    let word := plainWord inFlow (← get).rest
    if (← peek 0) = some '#' ∨ word = [] then return ([], lineEnded)
    skip word.length
    let (next, ended) ← plainSpaces
    if next = [] ∨ (← peek 0) = some '#' ∨ !inFlow ∧ (← get).column < indent then
      return (spaces ++ word, ended)
    let (more, ended) ← plainRest inFlow indent fuel next ended
    return (spaces ++ word ++ more, ended)

def plain (inFlow : Bool) (indent : Nat) : Lex (Text × Bool) := do
  plainRest inFlow indent (← get).fuel [] false

/-- What becomes of the line breaks at the end of a block. -/
inductive Chomp
  | strip
  | clip
  | keep
  deriving DecidableEq

def chompMark? : Option Char → Option Chomp
  | some '+' => some .keep
  | some '-' => some .strip
  | _ => none

def chompMark : Lex (Option Chomp) := do
  let mark := chompMark? (← peek 0)
  if mark.isSome then skip 1
  return mark

/-- The digit for the indentation of a block, which is not zero. -/
def indentMark : Lex (Option Nat) := do
  match ← peek 0 with
  | some c =>
    if !isDigit c then return none
    if c = '0' then refuse
    skip 1
    return some (c.toNat - 48)
  | none => return none

def blockMarks : Lex (Chomp × Option Nat) := do
  let early ← chompMark
  let indent ← indentMark
  let late ← if early.isNone ∧ indent.isSome then chompMark else pure none
  ensure endsField
  return ((early.or late).getD .clip, indent)

def skipIndent (indent : Nat) : Lex Unit := do
  let p ← get
  skip (min (indent - p.column) (p.rest.takeWhile (· = ' ')).length)

def blockBreaks (indent : Nat) : (fuel : Nat) → Lex Text
  | 0 => refuse
  | fuel + 1 => do
    skipIndent indent
    match ← lineBreak? with
    | some b => return b :: (← blockBreaks indent fuel)
    | none => return []

def leadingBreaks : (fuel : Nat) → Lex (Text × Nat)
  | 0 => refuse
  | fuel + 1 => do
    skipSpaces
    let width := (← get).column
    match ← lineBreak? with
    | some b =>
      let (more, widest) ← leadingBreaks fuel
      return (b :: more, max width widest)
    | none => return ([], width)

/-- What stands between two lines of a block: `folds` when both start with something other than a
blank in a folded block. -/
def blockJoint (folds : Bool) (ending : Char) (breaks : Text) : Text :=
  if folds ∧ ending = '\n' then (if breaks = [] then [' '] else []) else [ending]

def startsText (c : Option Char) : Bool := !c.any fun c ↦ c = ' ' || c = '\t'

def blockRest (folded : Bool) (chomp : Chomp) (indent : Nat) : (fuel : Nat) → Text → Lex Text
  | 0, _ => refuse
  | fuel + 1, breaks => do
    let leading := startsText (← peek 0)
    let line ← takeWhile fun c ↦ !isBreak c
    let ending ← lineBreak?
    let next ← blockBreaks indent (← get).fuel
    let p ← get
    if p.column = indent ∧ p.rest ≠ [] then
      let folds := folded && leading && startsText p.rest.head?
      let joint := (ending.map (blockJoint folds · next)).getD []
      return breaks ++ line ++ joint ++ (← blockRest folded chomp indent fuel next)
    else
      return breaks ++ line ++ (if chomp = .strip then [] else ending.toList) ++
        if chomp = .keep then next else []

/-- A block scalar from its sign on, inside a block indented to `least - 1`. -/
def block (folded : Bool) (least : Nat) : Lex Text := do
  skip 1
  let (chomp, increment) ← blockMarks
  restOfLine
  let fuel := (← get).fuel
  let (breaks, indent) ←
    match increment with
    | some n => do
      let indent := max least 1 + n - 1
      pure (← blockBreaks indent fuel, indent)
    | none => do
      let (breaks, width) ← leadingBreaks fuel
      pure (breaks, max (max least 1) width)
  let p ← get
  if p.column = indent ∧ p.rest ≠ [] then blockRest folded chomp indent fuel breaks
  else return if chomp = .keep then breaks else []

end CanvasLift.Yaml.Lex
