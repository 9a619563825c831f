import CanvasLift.Text

namespace CanvasLift.Text

variable {depth depth' : Nat} {t u v w : Text}

def isBrace (c : Char) : Bool := c = '\x7b' || c = '\x7d'

theorem isBrace_eq_false {p : Char → Bool} (hopen : p '\x7b' = false) (hclose : p '\x7d' = false)
    {c : Char} (hc : p c = true) : isBrace c = false := by
  rw [← Bool.not_eq_true]
  intro hbrace
  rcases (by simpa [isBrace] using hbrace : c = '\x7b' ∨ c = '\x7d') with rfl | rfl
  · rw [hopen] at hc
    cases hc
  · rw [hclose] at hc
    cases hc

/-- How many braces are open at the end of a text, unless one is closed that none opens. -/
def depthAfter : (depth : Nat) → Text → Option Nat
  | depth, [] => some depth
  | depth, c :: t =>
    if c = '\x7b' then depthAfter (depth + 1) t
    else if c = '\x7d' then if depth = 0 then none else depthAfter (depth - 1) t
    else depthAfter depth t

def Balanced (t : Text) : Prop := depthAfter 0 t = some 0

instance (t : Text) : Decidable (Balanced t) := inferInstanceAs (Decidable (_ = _))

theorem depthAfter_append : depthAfter depth (u ++ v) = (depthAfter depth u).bind (depthAfter · v) := by
  induction u generalizing depth with
  | nil => rfl
  | cons c u ih =>
    rw [List.cons_append, depthAfter, depthAfter]
    split
    · exact ih
    · split
      · split
        · rfl
        · exact ih
      · exact ih

theorem depthAfter_append_congr (h : ∀ depth, depthAfter depth v = depthAfter depth w) (u : Text) :
    depthAfter depth (u ++ v) = depthAfter depth (u ++ w) := by
  rw [depthAfter_append, depthAfter_append, funext h]

theorem depthAfter_filter (depth : Nat) (t : Text) :
    depthAfter depth (t.filter isBrace) = depthAfter depth t := by
  induction t generalizing depth with
  | nil => rfl
  | cons c t ih =>
    by_cases hc : isBrace c = true
    · rw [List.filter_cons_of_pos hc, depthAfter, depthAfter, ih, ih, ih]
    · obtain ⟨hopen, hclose⟩ : c ≠ '\x7b' ∧ c ≠ '\x7d' := by simpa [isBrace] using hc
      rw [List.filter_cons_of_neg hc, ih, depthAfter, if_neg hopen, if_neg hclose]

theorem balanced_iff_of_filter_eq (h : u.filter isBrace = v.filter isBrace) :
    Balanced u ↔ Balanced v := by
  rw [Balanced, Balanced, ← depthAfter_filter, h, depthAfter_filter]

theorem depthAfter_add (h : depthAfter depth t = some depth') (more : Nat) :
    depthAfter (depth + more) t = some (depth' + more) := by
  induction t generalizing depth with
  | nil => exact congrArg (Option.map (· + more)) h
  | cons c t ih =>
    rw [depthAfter] at h ⊢
    split at h
    · next hopen =>
      rw [if_pos hopen, Nat.add_right_comm]
      exact ih h
    · next hopen =>
      rw [if_neg hopen]
      split at h
      · next hclose =>
        split at h
        · cases h
        · next hdepth =>
          rw [if_pos hclose, if_neg (by omega), show depth + more - 1 = depth - 1 + more by omega]
          exact ih h
      · next hclose =>
        rw [if_neg hclose]
        exact ih h

theorem Balanced.depthAfter (h : Balanced t) (depth : Nat) : Text.depthAfter depth t = some depth := by
  simpa using depthAfter_add h depth

theorem Balanced.depthAfter_append (h : Balanced w) (depth : Nat) (t : Text) :
    Text.depthAfter depth (w ++ t) = Text.depthAfter depth t := by
  rw [Text.depthAfter_append, h.depthAfter]
  rfl

theorem add_count_of_depthAfter (h : depthAfter depth t = some depth') :
    depth + t.count '\x7b' = depth' + t.count '\x7d' := by
  induction t generalizing depth with
  | nil =>
    obtain rfl := Option.some.inj h
    rfl
  | cons c t ih =>
    rw [depthAfter] at h
    rw [List.count_cons, List.count_cons]
    split at h
    · next hopen =>
      have hrest := ih h
      rw [hopen, if_pos (by decide), if_neg (by decide)]
      omega
    · next hopen =>
      rw [if_neg (by simpa using hopen)]
      split at h
      · next hclose =>
        split at h
        · cases h
        · have hrest := ih h
          rw [hclose, if_pos (by decide)]
          omega
      · next hclose =>
        have hrest := ih h
        rw [if_neg (by simpa using hclose)]
        omega

theorem Balanced.count_eq (h : Balanced t) : t.count '\x7b' = t.count '\x7d' := by
  simpa using add_count_of_depthAfter h

end CanvasLift.Text
