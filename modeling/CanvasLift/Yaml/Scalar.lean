import CanvasLift.Yaml.Kind

/-!
What YAML scalars denote: a kind and a text give a value, or show why there is none.
-/

namespace CanvasLift.Yaml

/-- A scalar value. Of bytes only their number is kept, and of a moment nothing. -/
inductive Scalar
  | null
  | bool (b : Bool)
  | int (i : Int)
  | float (x : Binary64)
  | text (w : WideText)
  | bytes (count : Nat)
  | moment

namespace Scalar

def faultAbout (w : WideText) : Number.Fault → Number.Fault
  | .notWhole base _ => .notWhole base w
  | .notReal _ => .notReal w
  | fault => fault

/-- The number that wide text denotes. No half is part of a number. -/
def number {α : Type} (read : Text → Except Number.Fault α) (w : WideText) : Except Fault α :=
  (read w.masked).mapError fun fault ↦ .number (faultAbout w fault)

def sexagesimal (places : List Int) : Int :=
  (places.foldl (fun (sum, unit) d ↦ (sum + d * unit, unit * 60)) ((0, 1) : Int × Int)).1

def signed (negative : Bool) (i : Int) : Int := if negative then -i else i

def dropUnderscores (w : WideText) : WideText := w.filter (· ≠ .char '_')

def splitSign : WideText → Except Fault (Bool × WideText)
  | [] => .error .emptyNumber
  | .char '-' :: rest => .ok (true, rest)
  | .char '+' :: rest => .ok (false, rest)
  | w => .ok (false, w)

def places (w : WideText) : List WideText := Text.splitOn (.char ':') w

def whole (w : WideText) : Except Fault Int := do
  let (negative, u) ← splitSign (dropUnderscores w)
  let value ← match u with
    | [] => .error .emptyNumber
    | [.char '0'] => pure 0
    | .char '0' :: .char 'b' :: digits => number (Number.whole 2) digits
    | .char '0' :: .char 'x' :: digits => number (Number.whole 16) digits
    | .char '0' :: _ => number (Number.whole 8) u
    | _ =>
      if .char ':' ∈ u then do
        pure (sexagesimal (← (places u).mapM (number (Number.whole 10))).reverse)
      else number (Number.whole 10) u
  return signed negative value

def times (x : Binary64) (unit : Int) : Except Fault Binary64 :=
  match Binary64.ofInt? unit with
  | some y => .ok (x.mul y)
  | none => .error (.number .beyondBinary64)

def sexagesimalReal (places : List Binary64) : Except Fault Binary64 := do
  let (sum, _) ← places.foldlM (fun ((sum, unit) : Binary64 × Int) d ↦ do
    return (sum.add (← times d unit), unit * 60)) (Binary64.zero false, 1)
  return sum

def real (w : WideText) : Except Fault Binary64 := do
  let (negative, u) ← splitSign (dropUnderscores w).lower
  let value ←
    if u.masked = ".inf".toList then pure (.infinity false)
    else if u.masked = ".nan".toList then pure .nan
    else if .char ':' ∈ u then do
      sexagesimalReal (← (places u).mapM (number Number.real)).reverse
    else number Number.real u
  return if negative then value.neg else value

def truth (w : WideText) : Except Fault Bool :=
  let word := w.lower
  if Kind.truths.contains word.masked then .ok true
  else if Kind.untruths.contains word.masked then .ok false
  else .error (.notBoolean word)

def count (digits : Text) : Nat := digits.foldl (fun n c ↦ 10 * n + (c.toNat - 48)) 0

def daysIn (year month : Nat) : Nat :=
  if month = 2 then
    if year % 4 = 0 ∧ (year % 100 ≠ 0 ∨ year % 400 = 0) then 29 else 28
  else if month ∈ [4, 6, 9, 11] then 30
  else 31

def ensureDate (year month day : Nat) : Except Fault Unit :=
  if year = 0 then .error (.date (.year year))
  else if month = 0 ∨ 12 < month then .error (.date .month)
  else if day = 0 ∨ daysIn year month < day then .error (.date .day)
  else .ok ()

def ensureTime (hour minute second : Nat) : Except Fault Unit :=
  if 23 < hour then .error (.date .hour)
  else if 59 < minute then .error (.date .minute)
  else if 59 < second then .error (.date .second)
  else .ok ()

def ensureZone (zone : Text) : Except Fault Unit :=
  match zone with
  | [] | 'Z' :: _ => .ok ()
  | sign :: rest =>
    let (hours, minutes) := ((Text.cut? ':' rest).map fun (h, m) ↦ (count h, count m)).getD
      (count rest, 0)
    let distance : Int := 60 * hours + minutes
    if distance < 1440 then .ok ()
    else .error (.date (.offset (if sign = '-' then -distance else distance)))

def isDigit (c : Char) : Bool := '0' ≤ c && c ≤ '9'

/-- A date, and the rest after it: its month and its day have one digit or two. -/
def splitDate (t : Text) : Nat × Nat × Nat × Text :=
  let year := t.take 4
  let t := t.drop 5
  let month := t.takeWhile isDigit
  let t := (t.dropWhile isDigit).drop 1
  (count year, count month, count (t.takeWhile isDigit), t.dropWhile isDigit)

/-- A date alone whose month or day has one digit is a date too, once a tag says so. -/
def looseDateForm : Pattern :=
  .chain [Kind.digit, Kind.digit, Kind.digit, Kind.digit, .literal "-", Kind.upToTwoDigits,
    .literal "-", Kind.upToTwoDigits]

def ensureMoment (t : Text) : Except Fault Unit := do
  let t := if t.getLast? = some '\n' then t.dropLast else t
  if !(looseDateForm.spans t || Kind.momentForm.spans t) then throw .notTimestamp
  let (year, month, day, rest) := splitDate t
  let clock := rest.dropWhile fun c ↦ !isDigit c
  if clock = [] then ensureDate year month day
  else
    let hour := count (clock.takeWhile isDigit)
    let rest := (clock.dropWhile isDigit).drop 1
    let minute := count (rest.take 2)
    let second := count ((rest.drop 3).take 2)
    let zone := (rest.drop 5).dropWhile fun c ↦ isDigit c || c = '.' || c = ' ' || c = '\t'
    ensureZone zone
    ensureDate year month day
    ensureTime hour minute second

def isBase64 (c : Char) : Bool := c.isAlphanum || c = '+' || c = '/'

/-- How many bytes base 64 text holds: characters outside the alphabet do not count, `place` is the
place in the group of four, and enough padding ends the text. -/
def base64Count : (place padding total : Nat) → Text → Except Fault Nat
  | place, _, total, [] => if place = 0 then .ok total else .error .malformed
  | place, padding, total, c :: rest =>
    if c = '=' then
      if 2 ≤ place ∧ 4 ≤ place + padding + 1 then .ok total
      else base64Count place (if 2 ≤ place then padding + 1 else padding) total rest
    else if isBase64 c then
      base64Count ((place + 1) % 4) 0 (if place = 0 then total else total + 1) rest
    else base64Count place padding total rest

def binary (t : Text) : Except Fault Nat :=
  if t.all fun c ↦ c.toNat < 128 then base64Count 0 0 0 t else .error .malformed

def ofText (kind : Kind) (w : WideText) : Except Fault Scalar :=
  match kind with
  | .null => .ok null
  | .bool => (truth w).map bool
  | .int => (whole w).map int
  | .float => (real w).map float
  | .timestamp => (ensureMoment w.masked).map fun _ ↦ moment
  | .binary => (binary w.masked).map bytes
  | .text => .ok (text w)
  | _ => .error .malformed

end Scalar

end CanvasLift.Yaml
