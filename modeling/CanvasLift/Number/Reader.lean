import CanvasLift.Number.Binary64
import CanvasLift.Text.Blank
import CanvasLift.Text.Wide

/-!
Numbers read from loose text: blanks around them, a sign, decimal digits of any script, and single
underscores between digits. A decimal whole number may have at most `digitLimit` digits.
-/

namespace CanvasLift.Number

/-- The zeros of the scripts of Unicode 14 that have decimal digits, the nine others following. -/
def decimalZeros : List Nat :=
  [48, 1632, 1776, 1984, 2406, 2534, 2662, 2790, 2918, 3046, 3174, 3302, 3430, 3558, 3664, 3792,
   3872, 4160, 4240, 6112, 6160, 6470, 6608, 6784, 6800, 6992, 7088, 7232, 7248, 42528, 43216,
   43264, 43472, 43504, 43600, 44016, 65296, 66720, 68912, 69734, 69872, 69942, 70096, 70384,
   70736, 70864, 71248, 71360, 71472, 71904, 72016, 72784, 73040, 73120, 92768, 92864, 93008,
   120782, 120792, 120802, 120812, 120822, 123200, 123632, 125264, 130032]

def decimalDigit? (c : Char) : Option Nat :=
  (decimalZeros.find? fun z ↦ z ≤ c.toNat && c.toNat ≤ z + 9).map (c.toNat - ·)

/-- The blank characters that may surround a number: all but the separators of ASCII. -/
def isPadding (c : Char) : Bool := Text.isBlank c && !(28 ≤ c.toNat && c.toNat ≤ 31)

def plain (t : Text) : Text :=
  let front := (t.map fun c ↦ ((decimalDigit? c).map fun d ↦ Char.ofNat (48 + d)).getD c).dropWhile
    isPadding
  (front.reverse.dropWhile isPadding).reverse

def digitLimit : Nat := 4300

inductive Fault
  | notWhole (base : Nat) (text : WideText)
  | notReal (text : WideText)
  | tooLong (digits : Nat)
  | beyondBinary64
  deriving DecidableEq

def Fault.message : Fault → Text
  | .notWhole base text =>
    "invalid literal for int() with base " ++ Text.ofNat base ++ ": " ++
      text.quoted.take 200
  | .notReal text => "could not convert string to float: " ++ text.quoted
  | .tooLong digits =>
    "Exceeds the limit (" ++ Text.ofNat digitLimit ++
      " digits) for integer string conversion: value has " ++ Text.ofNat digits ++
      " digits; use sys.set_int_max_str_digits() to increase the limit"
  | .beyondBinary64 => "int too large to convert to float"

def splitSign : Text → Bool × Text
  | '-' :: rest => (true, rest)
  | '+' :: rest => (false, rest)
  | t => (false, t)

/-- A text without its underscores, if each of them stands between two characters of a class. -/
def dropUnderscores? (p : Char → Bool) : (before : Option Char) → Text → Option Text
  | _, [] => some []
  | before, '_' :: rest =>
    if before.any p && rest.head?.any p then dropUnderscores? p (some '_') rest else none
  | _, c :: rest => (dropUnderscores? p (some c) rest).map (c :: ·)

def digitBelow? (base : Nat) (c : Char) : Option Nat := (Text.hexDigit? c).filter (· < base)

def baseLetter? : Nat → Option Char
  | 2 => some 'b'
  | 8 => some 'o'
  | 16 => some 'x'
  | _ => none

def dropBaseMarker (base : Nat) (t : Text) : Text :=
  match t with
  | '0' :: c :: rest =>
    if baseLetter? base = some c.toLower then
      match rest with
      | '_' :: digits => digits
      | _ => rest
    else t
  | _ => t

def digitRun? (isDigit : Char → Bool) (t : Text) : Option (Text × Text) :=
  let inRun (c : Char) := isDigit c || c = '_'
  ((dropUnderscores? isDigit none (t.takeWhile inRun)).filter (· ≠ [])).map (·, t.dropWhile inRun)

/-- The whole number that a text denotes in base 2, 8, 10 or 16. Too many digits are a fault before
what follows them is looked at. -/
def whole (base : Nat) (t : Text) : Except Fault Int :=
  let isDigit (c : Char) := (digitBelow? base c).isSome
  let (negative, rest) := splitSign (plain t)
  match digitRun? isDigit (dropBaseMarker base rest) with
  | none => .error (.notWhole base t)
  | some (digits, rest) =>
    if base = 10 ∧ digitLimit < digits.length then .error (.tooLong digits.length)
    else if rest ≠ [] then .error (.notWhole base t)
    else
      let value := digits.foldl (fun n c ↦ base * n + (digitBelow? base c).getD 0) 0
      .ok (if negative then -value else value)

def isDigit (c : Char) : Bool := (digitBelow? 10 c).isSome

def digitsValue (digits : Text) : Nat :=
  digits.foldl (fun n c ↦ 10 * n + (digitBelow? 10 c).getD 0) 0

def exponent? : Text → Option Int
  | [] => some 0
  | e :: rest =>
    let (negative, digits) := splitSign rest
    if (e = 'e' ∨ e = 'E') ∧ digits ≠ [] ∧ digits.all isDigit then
      some (if negative then -(digitsValue digits) else digitsValue digits)
    else none

def decimal? (negative : Bool) (t : Text) : Option Binary64 := do
  let front := t.takeWhile isDigit
  let rest := t.dropWhile isDigit
  let (fraction, rest) := match rest with
    | '.' :: rest => (rest.takeWhile isDigit, rest.dropWhile isDigit)
    | _ => ([], rest)
  if front = [] ∧ fraction = [] then none
  let exponent ← exponent? rest
  return Binary64.ofDecimal negative (digitsValue (front ++ fraction)) (exponent - fraction.length)

def real? (t : Text) : Option Binary64 := do
  let t ← dropUnderscores? isDigit none (plain t)
  let (negative, rest) := splitSign t
  let word := rest.map Char.toLower
  if word = ("inf" : Text) ∨ word = ("infinity" : Text) then return .infinity negative
  if word = ("nan" : Text) then return .nan
  decimal? negative rest

def real (t : Text) : Except Fault Binary64 :=
  match real? t with
  | some x => .ok x
  | none => .error (.notReal t)

end CanvasLift.Number
