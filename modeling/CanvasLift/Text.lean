/-!
Text is the list of its code points. This module holds the cuts and joins that need no table of
characters.
-/

namespace CanvasLift

abbrev Text := List Char

instance : Coe String Text := ⟨String.toList⟩

namespace Text

/-- The pieces between the occurrences of `sep`: one more than there are occurrences. -/
def splitOn {α : Type} [DecidableEq α] (sep : α) : List α → List (List α)
  | [] => [[]]
  | c :: rest =>
    if c = sep then [] :: splitOn sep rest
    else match splitOn sep rest with
      | [] => [[c]]
      | piece :: pieces => (c :: piece) :: pieces

def lines (t : Text) : List Text := splitOn '\n' t

def joinWith {α : Type} (sep : List α) (ts : List (List α)) : List α := List.intercalate sep ts

def unlines (ts : List Text) : Text := joinWith ['\n'] ts

def cut? (sep : Char) (t : Text) : Option (Text × Text) :=
  match t.dropWhile (· ≠ sep) with
  | [] => none
  | _ :: rest => some (t.takeWhile (· ≠ sep), rest)

def dropFront? {α : Type} [DecidableEq α] : (front t : List α) → Option (List α)
  | [], t => some t
  | _ :: _, [] => none
  | f :: front, c :: t => if f = c then dropFront? front t else none

def endsWith (ending t : Text) : Bool := ending.isSuffixOf t

/-- Each carriage return with line feed, and each lone carriage return, becomes a line feed. -/
def unifyBreaks : Text → Text
  | [] => []
  | '\r' :: '\n' :: rest => '\n' :: unifyBreaks rest
  | c :: rest => (if c = '\r' then '\n' else c) :: unifyBreaks rest

/-- Each carriage return with line feed becomes a line feed; a lone carriage return stays. -/
def joinBreaks : Text → Text
  | [] => []
  | '\r' :: '\n' :: rest => '\n' :: joinBreaks rest
  | c :: rest => c :: joinBreaks rest

def ofNat (n : Nat) : Text := Nat.toDigits 10 n

def ofInt (i : Int) : Text :=
  if i < 0 then '-' :: ofNat i.natAbs else ofNat i.natAbs

def ofHex (width n : Nat) : Text :=
  let digits := Nat.toDigits 16 n
  List.replicate (width - digits.length) '0' ++ digits

def hexDigit? (c : Char) : Option Nat :=
  if '0' ≤ c ∧ c ≤ '9' then some (c.toNat - 48)
  else if 'a' ≤ c ∧ c ≤ 'f' then some (c.toNat - 87)
  else if 'A' ≤ c ∧ c ≤ 'F' then some (c.toNat - 55)
  else none

def hexValue? (t : Text) : Option Nat :=
  t.foldl (fun n c ↦ n.bind fun n ↦ (hexDigit? c).map (16 * n + ·)) (some 0)

def addNew (seen : List Text) (t : Text) : List Text :=
  if seen.contains t then seen else seen ++ [t]

def distinct (ts : List Text) : List Text := ts.foldl addNew []

end Text

end CanvasLift
