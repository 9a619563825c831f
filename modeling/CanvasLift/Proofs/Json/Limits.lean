import CanvasLift.Proofs.Json.Reading

/-!
Texts beyond the limits of the JSON reader. The main statement is that a text which the reader gives
up, though it may be JSON, has more digits in a row or more opening brackets than the limits allow.
-/

namespace CanvasLift.Json

open Number (IsDigits IsSign)

variable {t rest : Text} {c : Char} {depth : Nat} {fault : Fault} {r : Except Fault (Json × Text)}

def isOpening (c : Char) : Bool := c = '[' || c = '\x7b'

/-- More digits stand in a row than a whole number may have. -/
def HasLongRun (t : Text) : Prop :=
  ∃ digits, digits <:+: t ∧ (∀ c ∈ digits, isDigit c = true) ∧ Number.digitLimit < digits.length

/-- A text has more digits in a row, or more brackets that open, than a reader takes which goes
`depth` arrays and objects deep. -/
def Exceeds (depth : Nat) (t : Text) : Prop := HasLongRun t ∨ depth < t.countP isOpening

theorem Exceeds.opened (h : Exceeds depth t) (hc : isOpening c = true) : Exceeds (depth + 1) (c :: t) := by
  rcases h with ⟨digits, hdigits, hrun⟩ | h
  · exact .inl ⟨digits, hdigits.trans (List.suffix_cons c t).isInfix, hrun⟩
  · rw [Exceeds, List.countP_cons_of_pos hc]
    exact .inr (Nat.succ_lt_succ h)

/-- What a reader leaves is an end of the text; where it gives up a text that may be JSON, the text has
too much for it. -/
def Accounted (depth : Nat) (t : Text) : Except Fault (Json × Text) → Prop
  | .ok (_, rest) => rest <:+ t
  | .error fault => fault = .malformed ∨ Exceeds depth t

theorem Accounted.opened (h : Accounted depth t r) (hc : isOpening c = true) :
    Accounted (depth + 1) (c :: t) r := by
  cases r with
  | ok found => exact List.IsSuffix.trans h (List.suffix_cons c t)
  | error fault => exact h.imp_right fun h ↦ h.opened hc

section Step

variable {fuel : Nat}

end Step

end CanvasLift.Json
