import CanvasLift.Number.Binary64

/-!
Which whole numbers have a nearest finite number: those below the middle between the greatest finite
number and the power of two after it.
-/

namespace CanvasLift.Binary64

variable {num den k : Nat}

/-- A ratio below an even number is rounded up to it exactly from half a unit below it on. -/
theorem roundRatio_eq_iff (hk : k % 2 = 0) (hnum : num < den * k) :
    roundRatio num den = k ↔ 2 * (den * k) ≤ 2 * num + den := by
  have hden : 0 < den := Nat.pos_of_mul_pos_right (Nat.zero_lt_of_lt hnum)
  have hq : num / den < k := Nat.div_lt_of_lt_mul hnum
  have hr := Nat.mod_lt num hden
  have hsplit := Nat.div_add_mod num den
  rw [roundRatio]
  generalize num / den = q at *
  generalize num % den = r at *
  rcases Nat.lt_or_ge (q + 1) k with hbelow | hnext
  · have hgap : den * (q + 2) ≤ den * k := Nat.mul_le_mul_left den hbelow
    rw [Nat.mul_add] at hgap
    split
    · omega
    · split
      · omega
      · omega
  · obtain rfl : k = q + 1 := by omega
    rw [Nat.mul_add]
    split
    · omega
    · split
      · omega
      · omega

theorem scaleDown_natCast (num e : Nat) : scaleDown num 1 e = (num, Nat.pow 2 e) := by
  rw [scaleDown, if_pos (Int.natCast_nonneg e), Int.toNat_natCast, Nat.one_shiftLeft]
  rfl

theorem exponentOf_le (num : Nat) (h : num.log2 ≤ 1022) : exponentOf num 1 ≤ 970 := by
  have hone : Nat.log2 1 = 0 := by decide
  rw [exponentOf, hone, leastExponent]
  dsimp only
  split
  · omega
  · omega

theorem exponentOf_eq (hnum : num ≠ 0) (h : 53 ≤ num.log2) :
    exponentOf num 1 = num.log2 - 52 := by
  obtain ⟨e, he⟩ := Nat.exists_eq_add_of_le' h
  have hfull : Nat.pow 2 e <<< 53 ≤ num := by
    rw [Nat.shiftLeft_eq]
    refine Nat.le_trans (Nat.le_of_eq ?_) (Nat.log2_self_le hnum)
    rw [he]
    exact (Nat.pow_add 2 e 53).symm
  have hguess : (num.log2 : Int) - Nat.log2 1 - 53 = e := by
    rw [show Nat.log2 1 = 0 from by decide]
    omega
  rw [exponentOf, hguess, scaleDown_natCast, leastExponent]
  dsimp only
  rw [if_pos hfull]
  omega

theorem ofRatio_eq_infinity_iff_exponent (hnum : num ≠ 0) (negative other : Bool) :
    ofRatio negative num 1 = .infinity other ↔ negative = other ∧
      (greatestExponent < exponentOf num 1 ∨
        (exponentOf num 1 = greatestExponent ∧
          let (n, d) := scaleDown num 1 (exponentOf num 1)
          roundRatio n d = 9007199254740992)) := by
  rw [ofRatio, if_neg hnum]
  dsimp only
  rw [show 1 <<< 53 = 9007199254740992 from rfl]
  split
  · next hfull =>
    rw [hfull]
    split
    · grind
    · grind
  · next hpart =>
    split
    · grind
    · grind

/-- The middle between `(2 ^ 53 - 1) * 2 ^ (e + 1)` and the next power of two. -/
def lastMiddle (e : Nat) : Nat := 18014398509481983 * Nat.pow 2 e

theorem roundRatio_eq_top_iff {e : Nat} (h : num.log2 = e + 53) :
    roundRatio num (Nat.pow 2 (e + 1)) = 9007199254740992 ↔ lastMiddle e ≤ num := by
  have hdouble : Nat.pow 2 (e + 1) = Nat.pow 2 e * 2 := Nat.pow_succ 2 e
  have hnum : num < Nat.pow 2 (e + 1) * 9007199254740992 := by
    have hlt : num < 2 ^ (num.log2 + 1) := Nat.lt_log2_self
    rw [h, show e + 53 + 1 = (e + 1) + 53 by omega, Nat.pow_add] at hlt
    exact hlt
  rw [roundRatio_eq_iff (by decide) hnum, hdouble, lastMiddle]
  omega

/-- The least whole number that is rounded beyond the finite ones, `2 ^ 1024 - 2 ^ 970`. -/
def wholeBound : Nat := lastMiddle 970

theorem ofRatio_eq_infinity_iff (num : Nat) (negative other : Bool) :
    ofRatio negative num 1 = .infinity other ↔ negative = other ∧ wholeBound ≤ num := by
  -- The exponent is kept as a variable, so that no power of two is ever computed.
  obtain ⟨e, he, hbound⟩ : ∃ e, e = 970 ∧ wholeBound = lastMiddle e := ⟨970, rfl, rfl⟩
  have hunit : 0 < Nat.pow 2 e := Nat.two_pow_pos e
  rw [hbound]
  by_cases hnum : num = 0
  · subst hnum
    have hzero : ofRatio negative 0 1 ≠ .infinity other := by rintro ⟨⟩
    simp only [hzero, false_iff]
    rw [lastMiddle]
    omega
  · have hlower : 53 + e ≤ num.log2 ↔ 9007199254740992 * Nat.pow 2 e ≤ num := by
      rw [Nat.le_log2 hnum, Nat.pow_add]
      rfl
    have hupper : 54 + e ≤ num.log2 ↔ 18014398509481984 * Nat.pow 2 e ≤ num := by
      rw [Nat.le_log2 hnum, Nat.pow_add]
      rfl
    rw [ofRatio_eq_infinity_iff_exponent hnum, greatestExponent]
    apply and_congr_right
    intro
    by_cases hlog : num.log2 ≤ 1022
    · have hexponent := exponentOf_le num hlog
      rw [lastMiddle]
      omega
    · rw [exponentOf_eq hnum (by omega)]
      by_cases hlast : num.log2 = e + 53
      · rw [show (num.log2 : Int) - 52 = (e + 1 : Nat) by omega, scaleDown_natCast]
        dsimp only
        rw [roundRatio_eq_top_iff hlast]
        omega
      · rw [lastMiddle]
        omega

theorem ofInt?_eq_none_iff {i : Int} : ofInt? i = none ↔ wholeBound ≤ i.natAbs := by
  rw [ofInt?]
  split
  · next negative h => simpa using ((ofRatio_eq_infinity_iff _ _ _).1 h).2
  · next h =>
    simp only [reduceCtorEq, false_iff]
    intro hbound
    exact h _ ((ofRatio_eq_infinity_iff _ _ _).2 ⟨rfl, hbound⟩)

end CanvasLift.Binary64
