import CanvasLift.Number.Reader
import CanvasLift.Proofs.Text.Parts
import Mathlib.Data.List.TakeWhile

/-!
Numerals in plain ASCII: a sign, digits, and perhaps a fraction and an exponent. Whole ones are read
unless they have too many digits, and all others are read.
-/

namespace CanvasLift.Number

def digitLetters : Text := "0123456789"

def numeralLetters : Text := digitLetters ++ "+-.e"

structure IsDigits (t : Text) : Prop where
  nonempty : t ≠ []
  digits : ∀ c ∈ t, c ∈ digitLetters

inductive IsSign : Text → Prop
  | nothing : IsSign []
  | plus : IsSign ['+']
  | minus : IsSign ['-']

inductive IsFraction : Text → Prop
  | nothing : IsFraction []
  | digits {digits : Text} (h : IsDigits digits) : IsFraction ('.' :: digits)

inductive IsExponent : Text → Prop
  | nothing : IsExponent []
  | digits {sign digits : Text} (hsign : IsSign sign) (h : IsDigits digits) :
      IsExponent ('e' :: sign ++ digits)

variable {t sign digits frac exp rest : Text} {c : Char} {p : Char → Bool}

theorem IsDigits.isDigit (h : IsDigits digits) : ∀ c ∈ digits, isDigit c = true := by
  have hall : digitLetters.all Number.isDigit = true := by decide
  exact fun c hc ↦ List.all_eq_true.1 hall c (h.digits c hc)

theorem mem_numeralLetters_of_digit (h : c ∈ digitLetters) : c ∈ numeralLetters :=
  List.mem_append_left _ h

theorem IsDigits.exists_head (h : IsDigits digits) :
    ∃ c rest, digits = c :: rest ∧ c ∈ digitLetters := by
  obtain ⟨c, rest, rfl⟩ := List.exists_cons_of_ne_nil h.nonempty
  exact ⟨c, rest, rfl, h.digits c List.mem_cons_self⟩

theorem IsDigits.numeral (h : IsDigits digits) : ∀ c ∈ digits, c ∈ numeralLetters :=
  fun c hc ↦ mem_numeralLetters_of_digit (h.digits c hc)

theorem IsSign.numeral (h : IsSign sign) : ∀ c ∈ sign, c ∈ numeralLetters := by
  cases h with
  | nothing => simp
  | plus => exact List.forall_mem_singleton.2 (by decide)
  | minus => exact List.forall_mem_singleton.2 (by decide)

theorem IsFraction.numeral (h : IsFraction frac) : ∀ c ∈ frac, c ∈ numeralLetters := by
  cases h with
  | nothing => simp
  | digits h => exact List.forall_mem_cons.2 ⟨by decide, h.numeral⟩

theorem IsExponent.numeral (h : IsExponent exp) : ∀ c ∈ exp, c ∈ numeralLetters := by
  cases h with
  | nothing => simp
  | digits hsign h =>
    refine List.forall_mem_cons.2 ⟨by decide, fun c hc ↦ ?_⟩
    exact (List.mem_append.1 hc).elim (hsign.numeral c) (h.numeral c)

end CanvasLift.Number
