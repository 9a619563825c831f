import CanvasLift.Yaml.Lexeme.Scalar

/-!
The tokens of a YAML text. Blocks are told by their indentation, so that their starts and ends become
tokens of their own. That a node is a key shows only at the colon after it: until then the place of
its first token is remembered, and the token that marks a key is put in there afterwards. A fault in
the text leaves the tokens that are settled before it.
-/

namespace CanvasLift.Yaml

inductive Token
  | documentStart
  | documentEnd
  | directive (d : Lex.Directive)
  | blockSequenceStart
  | blockMappingStart
  | blockEnd
  | flowSequenceStart
  | flowSequenceEnd
  | flowMappingStart
  | flowMappingEnd
  | blockEntry
  | flowEntry
  | key
  | value
  | alias (name : Text)
  | anchor (name : Text)
  | tag (handle : Option Text) (rest : Text)
  | scalar (text : WideText) (plain : Bool)

structure Tokens where
  list : List Token
  fault : Option Fault

/-- A node that may turn out to be a key: the number of its first token, whether it has to be a key,
and where it starts. -/
structure OpenKey where
  token : Nat
  required : Bool
  place : Place

/-- The tokens so far, the last one first, and their number; and what the next ones depend on: the
indentation of the blocks that are open, from the innermost out, how many brackets are open, and the
nodes that may be keys, by the number of brackets around them. A block of indentation `n` stands as
`n + 1`, and 0 is outside all. -/
structure Lexer where
  place : Place
  tokens : List Token
  count : Nat
  indents : List Nat
  flow : Nat
  keyAllowed : Bool
  keys : List (Nat × OpenKey)

namespace Lexer

def start (t : Text) : Lexer := ⟨Place.start t, [], 0, [], 0, true, []⟩

def keyLimit : Nat := 1024

def indent (s : Lexer) : Nat := s.indents.headD 0

def push (t : Token) (s : Lexer) : Lexer :=
  { s with tokens := t :: s.tokens, count := s.count + 1 }

def insert (position : Nat) (t : Token) (s : Lexer) : Lexer :=
  { s with tokens := s.tokens.insertIdx (s.count - position) t, count := s.count + 1 }

def take (n : Nat) (t : Token) (s : Lexer) : Lexer :=
  { s.push t with place := s.place.advance n }

def allowKey (allowed : Bool) (s : Lexer) : Lexer := { s with keyAllowed := allowed }

def read {α : Type} (lex : Lex α) (s : Lexer) : Except Fault (α × Lexer) :=
  match lex s.place with
  | .ok (a, place) => .ok (a, { s with place })
  | .error fault => .error fault

/-- Skips white space, comments and line breaks. After a break outside brackets a key may stand. -/
def skipToToken : (fuel : Nat) → Lexer → Except Fault Lexer
  | 0, _ => .error .malformed
  | fuel + 1, s => do
    let (ending, s) ← s.read do
      Lex.skipSpaces
      Lex.skipComment
      Lex.lineBreak?
    match ending with
    | some _ => skipToToken fuel (if s.flow = 0 then s.allowKey true else s)
    | none => return s

/-- A byte order mark at the very start is no part of the document. -/
def skipMark (s : Lexer) : Lexer :=
  if s.place.index = 0 ∧ s.place.rest.head? = some byteOrderMark then
    { s with place := s.place.step }
  else s

def isStale (s : Lexer) (k : OpenKey) : Bool :=
  k.place.line ≠ s.place.line || keyLimit < s.place.index - k.place.index

def forgetKeys (s : Lexer) : Except Fault Lexer :=
  if s.keys.any fun (_, k) ↦ s.isStale k && k.required then .error .malformed
  else .ok { s with keys := s.keys.filter fun (_, k) ↦ !s.isStale k }

def dropKey (s : Lexer) : Except Fault Lexer :=
  if s.keys.any fun (level, k) ↦ level = s.flow && k.required then .error .malformed
  else .ok { s with keys := s.keys.filter fun (level, _) ↦ level ≠ s.flow }

def saveKey (s : Lexer) : Except Fault Lexer :=
  if !s.keyAllowed then .ok s
  else do
    let required := s.flow = 0 ∧ s.indent = s.place.column + 1
    let s ← s.dropKey
    return { s with keys := (s.flow, ⟨s.count, required, s.place⟩) :: s.keys }

/-- Ends the blocks that are indented further than `column`, where 0 is outside all. -/
def closeBlocks (column : Nat) (s : Lexer) : Lexer :=
  if s.flow ≠ 0 then s
  else
    let closed := s.indents.takeWhile (column < ·)
    closed.foldl (fun s _ ↦ s.push .blockEnd) { s with indents := s.indents.drop closed.length }

/-- Opens a block at a column, unless one is open there; its first token goes to `position`. -/
def openBlock (column position : Nat) (t : Token) (s : Lexer) : Lexer :=
  if s.flow = 0 ∧ s.indent < column + 1 then
    { s.insert position t with indents := (column + 1) :: s.indents }
  else s

def ensureKeyAllowed (s : Lexer) : Except Fault Unit :=
  if s.flow = 0 ∧ !s.keyAllowed then .error .malformed else .ok ()

def leaveBlocks (s : Lexer) : Except Fault Lexer := do
  return ((← (s.closeBlocks 0).dropKey)).allowKey false

def flowStart (t : Token) (s : Lexer) : Except Fault Lexer := do
  let s ← s.saveKey
  return { (s.take 1 t).allowKey true with flow := s.flow + 1 }

def flowEnd (t : Token) (s : Lexer) : Except Fault Lexer := do
  if s.flow = 0 then throw .malformed
  let s ← s.dropKey
  return { (s.take 1 t).allowKey false with flow := s.flow - 1 }

def flowEntry (s : Lexer) : Except Fault Lexer := do
  return ((← s.dropKey).take 1 .flowEntry).allowKey true

def blockEntry (s : Lexer) : Except Fault Lexer := do
  s.ensureKeyAllowed
  let s := s.openBlock s.place.column s.count .blockSequenceStart
  return ((← s.dropKey).take 1 .blockEntry).allowKey true

def key (s : Lexer) : Except Fault Lexer := do
  s.ensureKeyAllowed
  let s := s.openBlock s.place.column s.count .blockMappingStart
  return ((← s.dropKey).take 1 .key).allowKey (s.flow = 0)

/-- A colon: the open node, if there is one, is a key. -/
def value (s : Lexer) : Except Fault Lexer :=
  match s.keys.lookup s.flow with
  | some k =>
    let s := { s.insert k.token .key with
      keys := s.keys.filter fun (level, _) ↦ level ≠ s.flow }
    let s := s.openBlock k.place.column k.token .blockMappingStart
    .ok ((s.take 1 .value).allowKey false)
  | none => do
    s.ensureKeyAllowed
    let s := s.openBlock s.place.column s.count .blockMappingStart
    return ((← s.dropKey).take 1 .value).allowKey (s.flow = 0)

def node (lex : Lex Token) (s : Lexer) : Except Fault Lexer := do
  let (t, s) ← (← s.saveKey).read lex
  return (s.push t).allowKey false

/-- A plain scalar. After a line break that ends it a key may stand. -/
def plain (s : Lexer) : Except Fault Lexer := do
  let s ← s.saveKey
  let ((text, ended), s) ← s.read (Lex.plain (s.flow ≠ 0) s.indent)
  return (s.push (.scalar text true)).allowKey ended

def blockScalar (folded : Bool) (s : Lexer) : Except Fault Lexer := do
  let s ← s.dropKey
  let (text, s) ← s.read (Lex.block folded s.indent)
  return (s.push (.scalar text false)).allowKey true

def startsPlain (flow : Bool) (c : Char) (next : Option Char) : Bool :=
  !(endsWord (some c) || c ∈ "-?:,[]\x7b\x7d#&*!|>'\"%@`".toList) ||
    !endsWord next && (c = '-' || !flow && (c = '?' || c = ':'))

def atMarker (s : Lexer) (mark : Char) : Bool :=
  s.place.column = 0 && s.place.rest.head? = some mark && s.place.atMarker

def token (c : Char) (s : Lexer) : Except Fault Lexer := do
  let next := s.place.rest[1]?
  let isMark := s.flow ≠ 0 || endsWord next
  if c = '%' ∧ s.place.column = 0 then
    let (d, s) ← (← s.leaveBlocks).read Lex.directive
    return s.push (.directive d)
  else if s.atMarker '-' then return (← s.leaveBlocks).take 3 .documentStart
  else if s.atMarker '.' then return (← s.leaveBlocks).take 3 .documentEnd
  else if c = '[' then s.flowStart .flowSequenceStart
  else if c = '\x7b' then s.flowStart .flowMappingStart
  else if c = ']' then s.flowEnd .flowSequenceEnd
  else if c = '\x7d' then s.flowEnd .flowMappingEnd
  else if c = ',' then s.flowEntry
  else if c = '-' ∧ endsWord next then s.blockEntry
  else if c = '?' ∧ isMark then s.key
  else if c = ':' ∧ isMark then s.value
  else if c = '*' then s.node (return .alias (← Lex.anchorName))
  else if c = '&' then s.node (return .anchor (← Lex.anchorName))
  else if c = '!' then s.node do
    let (handle, rest) ← Lex.tag
    return .tag handle rest
  else if c = '|' ∧ s.flow = 0 then s.blockScalar false
  else if c = '>' ∧ s.flow = 0 then s.blockScalar true
  else if c = '\'' then s.node (return .scalar (← Lex.quoted false) false)
  else if c = '"' then s.node (return .scalar (← Lex.quoted true) false)
  else if startsPlain (s.flow ≠ 0) c next then s.plain
  else .error .malformed

def step (s : Lexer) : Except Fault (Bool × Lexer) := do
  let s ← s.skipToToken s.place.fuel
  let s ← s.forgetKeys
  match s.place.rest with
  | [] => return (true, ← s.leaveBlocks)
  | c :: _ => return (false, ← (s.closeBlocks (s.place.column + 1)).token c)

/-- The tokens that nothing further in the text can change: those before the first node that may
still turn out to be a key. -/
def settled (s : Lexer) : List Token :=
  let pending := s.keys.filter fun (_, k) ↦ !s.isStale k
  s.tokens.reverse.take (pending.foldl (fun n (_, k) ↦ min n k.token) s.count)

def run : (fuel : Nat) → Lexer → Tokens
  | 0, s => ⟨s.settled, some .malformed⟩
  | fuel + 1, s =>
    match s.step with
    | .ok (true, s) => ⟨s.tokens.reverse, none⟩
    | .ok (false, s) => run fuel s
    | .error fault => ⟨s.settled, some fault⟩

end Lexer

def Tokens.ofText (t : Text) : Tokens := (Lexer.start t).skipMark.run (t.length + 1)

end CanvasLift.Yaml
