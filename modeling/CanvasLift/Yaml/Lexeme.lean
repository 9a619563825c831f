import CanvasLift.Text.Utf8
import CanvasLift.Yaml.Fault

/-!
Reading the words of a YAML text: a place in the text that knows its line and column, and the small
lexemes, which are names, tags, anchors and directives. The text holds no carriage returns.
-/

namespace CanvasLift.Yaml

structure Place where
  size : Nat
  index : Nat
  line : Nat
  column : Nat
  rest : Text

def byteOrderMark : Char := '\ufeff'

def isBreak (c : Char) : Bool := c = '\n' || c = '\x85' || c = '\u2028' || c = '\u2029'

def endsLine (c : Option Char) : Bool := c.all isBreak

/-- The end of a field: a space or the end of a line. -/
def endsField (c : Option Char) : Bool := c.all fun c ↦ c = ' ' || isBreak c

/-- The end of a word: a space, a tab or the end of a line. -/
def endsWord (c : Option Char) : Bool := c.all fun c ↦ c = ' ' || c = '\t' || isBreak c

namespace Place

def start (t : Text) : Place := ⟨t.length, 0, 0, 0, t⟩

/-- More than the characters that are left. -/
def fuel (p : Place) : Nat := p.size + 1

/-- The place after the next character. A byte order mark has no width. -/
def step (p : Place) : Place :=
  match p.rest with
  | [] => p
  | c :: rest =>
    if isBreak c then ⟨p.size, p.index + 1, p.line + 1, 0, rest⟩
    else if c = byteOrderMark then ⟨p.size, p.index + 1, p.line, p.column, rest⟩
    else ⟨p.size, p.index + 1, p.line, p.column + 1, rest⟩

def advance : Nat → Place → Place
  | 0, p => p
  | n + 1, p => advance n p.step

def atMarker (p : Place) : Bool :=
  (p.rest.take 3 = ['-', '-', '-'] || p.rest.take 3 = ['.', '.', '.']) && endsWord p.rest[3]?

end Place

abbrev Lex := StateT Place (Except Fault)

namespace Lex

def refuse {α : Type} : Lex α := throw .malformed

def peek (k : Nat) : Lex (Option Char) := do return (← get).rest[k]?

def skip (n : Nat) : Lex Unit := modify (Place.advance n)

def takeWhile (p : Char → Bool) : Lex Text := do
  let taken := (← get).rest.takeWhile p
  skip taken.length
  return taken

def skipSpaces : Lex Unit := do discard (takeWhile (· = ' '))

def skipComment : Lex Unit := do
  if (← peek 0) = some '#' then discard (takeWhile fun c ↦ !isBreak c)

def ensure (p : Option Char → Bool) : Lex Unit := do
  if !p (← peek 0) then refuse

def lineBreak? : Lex (Option Char) := do
  match ← peek 0 with
  | some c =>
    if !isBreak c then return none
    skip 1
    return some (if c = '\x85' then '\n' else c)
  | none => return none

/-- Nothing but spaces and a comment may stand before the end of the line. -/
def restOfLine : Lex Unit := do
  skipSpaces
  skipComment
  ensure endsLine
  discard lineBreak?

def isNameChar (c : Char) : Bool := c.isAlphanum || c = '-' || c = '_'

def isDigit (c : Char) : Bool := '0' ≤ c && c ≤ '9'

def number : Lex Int := do
  match ← takeWhile isDigit with
  | [] => refuse
  | digits =>
    match Number.whole 10 digits with
    | .ok i => return i
    | .error fault => throw (.number fault)

def tagHandle : Lex Text := do
  ensure (· = some '!')
  skip 1
  if (← peek 0) = some ' ' then return ['!']
  let name ← takeWhile isNameChar
  ensure (· = some '!')
  skip 1
  return '!' :: name ++ ['!']

def isUriChar (c : Char) : Bool := c.isAlphanum || c ∈ "-;/?:@&=+$,_.!~*'()[]".toList

/-- The bytes of consecutive escapes, two hexadecimal digits after a percent sign each. -/
def escapedBytes : (fuel : Nat) → Lex Bytes
  | 0 => refuse
  | fuel + 1 => do
    if (← peek 0) ≠ some '%' then return []
    skip 1
    match Text.hexValue? ((← get).rest.take 2), (← get).rest[1]? with
    | some byte, some _ =>
      skip 2
      return byte.toUInt8 :: (← escapedBytes fuel)
    | _, _ => refuse

def uriParts : (fuel : Nat) → Lex Text
  | 0 => refuse
  | fuel + 1 => do
    let plain ← takeWhile isUriChar
    if (← peek 0) ≠ some '%' then return plain
    match Utf8.decode (← escapedBytes (← get).fuel) with
    | .ok t => return plain ++ t ++ (← uriParts fuel)
    | .error _ => refuse

/-- The text of a tag or of what a handle stands for; it takes at least one character. -/
def uri : Lex Text := do
  ensure fun c ↦ c.any fun c ↦ isUriChar c || c = '%'
  uriParts (← get).fuel

inductive Directive
  | version (major minor : Int)
  | handle (handle expansion : Text)
  | other

def versionDirective : Lex Directive := do
  skipSpaces
  let major ← number
  ensure (· = some '.')
  skip 1
  let minor ← number
  ensure endsField
  return .version major minor

def handleDirective : Lex Directive := do
  skipSpaces
  let handle ← tagHandle
  ensure (· = some ' ')
  skipSpaces
  let expansion ← uri
  ensure endsField
  return .handle handle expansion

def directive : Lex Directive := do
  skip 1
  let name ← takeWhile isNameChar
  if name = [] then refuse
  ensure endsField
  let d ←
    if name = ("YAML" : Text) then versionDirective
    else if name = ("TAG" : Text) then handleDirective
    else do
      discard (takeWhile fun c ↦ !isBreak c)
      pure .other
  restOfLine
  return d

def anchorName : Lex Text := do
  skip 1
  let name ← takeWhile isNameChar
  if name = [] then refuse
  ensure fun c ↦ endsWord c || c.any (· ∈ "?:,]\x7d%@`".toList)
  return name

def tag : Lex (Option Text × Text) := do
  let next ← peek 1
  let found ←
    if next = some '<' then do
      skip 2
      let verbatim ← uri
      ensure (· = some '>')
      skip 1
      pure (none, verbatim)
    else if endsWord next then do
      skip 1
      pure (none, ['!'])
    else do
      let word := (← get).rest.tail.takeWhile fun c ↦ !endsField (some c)
      let handle ←
        if '!' ∈ word then tagHandle
        else do
          skip 1
          pure ['!']
      pure (some handle, ← uri)
  ensure endsField
  return found

end Lex

end CanvasLift.Yaml
