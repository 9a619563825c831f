import CanvasLift.Number.Binary64

/-!
The shortest decimal that reads back as a binary64 number. Of the decimals with the fewest digits the
nearest is taken. The layout is positional from `10 ^ -4` up to below `10 ^ 16` and scientific
outside.
-/

namespace CanvasLift.Binary64

def leadingExponent (num den : Nat) : Int :=
  if den ≤ num then (Nat.toDigits 10 (num / den)).length - 1
  else -((Nat.toDigits 10 ((den - 1) / num)).length : Int)

/-- Whether `±value * 10 ^ unit` lies among the reals that round to the significand: half a unit to
both sides, a quarter below a power of two, the ends only for an even significand. -/
def readsBack (significand : Nat) (exponent : Int) (value : Nat) (unit : Int) : Bool :=
  let below := if significand = 1 <<< 52 ∧ leastExponent < exponent then 1 else 2
  let (n, d) :=
    if 0 ≤ unit then (value * Nat.pow 10 unit.toNat, 1) else (value, Nat.pow 10 (-unit).toNat)
  let (n, d) := scaleDown n d (exponent - 2)
  let (low, high) := ((4 * significand - below) * d, (4 * significand + 2) * d)
  if significand % 2 = 0 then low ≤ n && n ≤ high else low < n && n < high

def decimalOfLength? (significand : Nat) (exponent : Int) (num den count : Nat) :
    Option (Nat × Int) :=
  let unit := leadingExponent num den - count + 1
  let (n, d) :=
    if 0 ≤ unit then (num, den * Nat.pow 10 unit.toNat) else (num * Nat.pow 10 (-unit).toNat, den)
  let q := n / d
  let reads (v : Nat) := readsBack significand exponent v unit
  let nearest := roundRatio n d
  if reads nearest then some (nearest, unit)
  else if reads q then some (q, unit)
  else if reads (q + 1) then some (q + 1, unit)
  else none

/-- The fewest digits that read back, up to the seventeen that always do. -/
def shortest (significand : Nat) (exponent : Int) : Nat × Int :=
  let (num, den) := scaleDown significand 1 (-exponent)
  ((List.range 17).findSome? fun i ↦
    decimalOfLength? significand exponent num den (i + 1)).getD (0, 0)

def dropZeros (digits : Text) (unit : Int) : Text × Int :=
  let zeros := (digits.reverse.takeWhile (· = '0')).length
  (digits.take (digits.length - zeros), unit + zeros)

def exponentText (e : Int) : Text :=
  let digits := Text.ofNat e.natAbs
  'e' :: (if e < 0 then '-' else '+') :: List.replicate (2 - digits.length) '0' ++ digits

def layout (digits : Text) (unit : Int) : Text :=
  let (digits, unit) := dropZeros digits unit
  let leading := unit + digits.length - 1
  if leading < -4 ∨ 16 ≤ leading then
    let fraction := digits.drop 1
    digits.take 1 ++ (if fraction = [] then [] else '.' :: fraction) ++ exponentText leading
  else if 0 ≤ unit then digits ++ List.replicate unit.toNat '0' ++ ".0"
  else if 0 ≤ leading then
    digits.take (leading.toNat + 1) ++ "." ++ digits.drop (leading.toNat + 1)
  else "0." ++ List.replicate (-leading - 1).toNat '0' ++ digits

def toText : Binary64 → Text
  | .nan => "nan"
  | .infinity negative => if negative then "-inf" else "inf"
  | .finite negative significand exponent =>
    let magnitude : Text :=
      if significand = 0 then "0.0"
      else
        let (value, unit) := shortest significand exponent
        layout (Text.ofNat value) unit
    if negative then '-' :: magnitude else magnitude

end CanvasLift.Binary64
