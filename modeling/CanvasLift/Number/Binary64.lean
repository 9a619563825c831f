import CanvasLift.Text

/-!
Binary64 numbers in exact arithmetic: rounding a ratio to the nearest one, a tie going to the even
significand, and the sums and products that reading a number needs.
-/

namespace CanvasLift

/-- A number is `±significand * 2 ^ exponent`; the significand is below `2 ^ 53`, and at least
`2 ^ 52` unless the exponent is the least one. -/
inductive Binary64
  | nan
  | infinity (negative : Bool)
  | finite (negative : Bool) (significand : Nat) (exponent : Int)
  deriving DecidableEq

namespace Binary64

def leastExponent : Int := -1074

def greatestExponent : Int := 971

def zero (negative : Bool) : Binary64 := .finite negative 0 leastExponent

def isZero : Binary64 → Bool
  | .finite _ 0 _ => true
  | _ => false

def roundRatio (num den : Nat) : Nat :=
  let q := num / den
  let twice := 2 * (num % den)
  if twice < den then q
  else if den < twice then q + 1
  else q + q % 2

def scaleDown (num den : Nat) (e : Int) : Nat × Nat :=
  if 0 ≤ e then (num, den <<< e.toNat) else (num <<< (-e).toNat, den)

/-- The exponent at which a positive ratio has 53 bits before the point, or the least one. -/
def exponentOf (num den : Nat) : Int :=
  let guess : Int := num.log2 - den.log2 - 53
  let (n, d) := scaleDown num den guess
  max leastExponent (if d <<< 53 ≤ n then guess + 1 else guess)

def ofRatio (negative : Bool) (num den : Nat) : Binary64 :=
  if num = 0 then zero negative
  else
    let e := exponentOf num den
    let (n, d) := scaleDown num den e
    let significand := roundRatio n d
    let (significand, e) :=
      if significand = 1 <<< 53 then (1 <<< 52, e + 1) else (significand, e)
    if greatestExponent < e then .infinity negative else .finite negative significand e

/-- The number nearest to `±digits * 10 ^ exponent`. Exponents far out are settled by the size of
the digits alone. -/
def ofDecimal (negative : Bool) (digits : Nat) (exponent : Int) : Binary64 :=
  if digits = 0 then zero negative
  else
    let size : Int := (Nat.toDigits 10 digits).length + exponent
    if 400 < size then .infinity negative
    else if size < -400 then zero negative
    else if 0 ≤ exponent then ofRatio negative (digits * Nat.pow 10 exponent.toNat) 1
    else ofRatio negative digits (Nat.pow 10 (-exponent).toNat)

def ofInt? (i : Int) : Option Binary64 :=
  match ofRatio (i < 0) i.natAbs 1 with
  | .infinity _ => none
  | x => some x

def neg : Binary64 → Binary64
  | .nan => .nan
  | .infinity negative => .infinity !negative
  | .finite negative significand exponent => .finite (!negative) significand exponent

def ratio (negative : Bool) (significand : Nat) (exponent : Int) : Int × Nat :=
  let (n, d) := scaleDown significand 1 (-exponent)
  (if negative then -n else n, d)

def add : Binary64 → Binary64 → Binary64
  | .nan, _ => .nan
  | _, .nan => .nan
  | .infinity s, .infinity t => if s = t then .infinity s else .nan
  | .infinity s, _ => .infinity s
  | _, .infinity t => .infinity t
  | .finite s m e, .finite t n f =>
    let (a, b) := ratio s m e
    let (c, d) := ratio t n f
    let sum := a * d + c * b
    if sum = 0 then zero (s && t) else ofRatio (sum < 0) sum.natAbs (b * d)

def mul : Binary64 → Binary64 → Binary64
  | .nan, _ => .nan
  | _, .nan => .nan
  | .infinity s, .infinity t => .infinity (s != t)
  | .infinity s, .finite t n _ => if n = 0 then .nan else .infinity (s != t)
  | .finite s m _, .infinity t => if m = 0 then .nan else .infinity (s != t)
  | .finite s m e, .finite t n f =>
    let (a, b) := ratio false m e
    let (c, d) := ratio false n f
    ofRatio (s != t) (a * c).natAbs (b * d)

end Binary64

end CanvasLift
