import CanvasLift.Text

namespace CanvasLift.Text

variable {p : Char → Bool} {t u w : Text} {segments xs ys : List Text}

theorem exists_splitOnP_append (hw : ∀ c ∈ w, p c = false) (u : Text) :
    ∃ before last, (u ++ w).splitOnP p = before ++ [last] ∧ w <:+ last := by
  induction u with
  | nil => exact ⟨[], w, List.splitOnP_eq_singleton hw, List.suffix_rfl⟩
  | cons x u ih =>
    obtain ⟨before, last, hsplit, hlast⟩ := ih
    rw [List.cons_append, List.splitOnP_cons_eq_if_modifyHead, hsplit]
    by_cases hx : p x = true
    · exact ⟨[] :: before, last, if_pos hx, hlast⟩
    · rw [if_neg hx]
      cases before with
      | nil => exact ⟨[], x :: last, rfl, hlast.trans (List.suffix_cons x last)⟩
      | cons y before => exact ⟨(x :: y) :: before, last, rfl, hlast⟩

theorem exists_eq_of_splitOnP_eq_append (h : t.splitOnP p = xs ++ ys) (hxs : xs ≠ [])
    (hys : ys ≠ []) :
    ∃ u x v, t = u ++ x :: v ∧ p x = true ∧ u.splitOnP p = xs ∧ v.splitOnP p = ys := by
  induction t generalizing xs with
  | nil =>
    have hlength := congrArg List.length h
    have := List.length_pos_iff.2 hxs
    have := List.length_pos_iff.2 hys
    simp only [List.splitOnP_nil, List.length_singleton, List.length_append] at hlength
    omega
  | cons x t ih =>
    obtain ⟨first, xs, rfl⟩ := List.exists_cons_of_ne_nil hxs
    rw [List.splitOnP_cons_eq_if_modifyHead] at h
    by_cases hx : p x = true
    · rw [if_pos hx] at h
      obtain ⟨rfl, hrest⟩ := List.cons.inj h
      cases xs with
      | nil => exact ⟨[], x, t, rfl, hx, List.splitOnP_nil, hrest⟩
      | cons second xs =>
        obtain ⟨u, y, v, rfl, hy, hu, hv⟩ := ih hrest (List.cons_ne_nil _ _)
        refine ⟨x :: u, y, v, rfl, hy, ?_, hv⟩
        rw [List.splitOnP_cons_eq_if_modifyHead, if_pos hx, hu]
    · rw [if_neg hx] at h
      obtain ⟨head, tail, hsplit⟩ := List.exists_cons_of_ne_nil (List.splitOnP_ne_nil p t)
      rw [hsplit] at h
      obtain ⟨rfl, rfl⟩ := List.cons.inj h
      have hparts : t.splitOnP p = (head :: xs) ++ ys := hsplit
      obtain ⟨u, y, v, rfl, hy, hu, hv⟩ := ih hparts (List.cons_ne_nil _ _)
      refine ⟨x :: u, y, v, rfl, hy, ?_, hv⟩
      rw [List.splitOnP_cons_eq_if_modifyHead, if_neg hx, hu]
      rfl

theorem eq_of_splitOnP_eq_singleton (h : t.splitOnP p = [u]) : t = u ∧ ∀ c ∈ t, p c = false := by
  by_cases hall : ∀ c ∈ t, p c = false
  · rw [List.splitOnP_eq_singleton hall] at h
    exact ⟨List.singleton_inj.1 h, hall⟩
  · obtain ⟨c, hc, hpc⟩ : ∃ c ∈ t, p c = true := by simpa using hall
    obtain ⟨v, w, rfl⟩ := List.append_of_mem hc
    rw [List.splitOnP_append_cons v w hpc] at h
    have hlength := congrArg List.length h
    have := List.length_pos_iff.2 (List.splitOnP_ne_nil p v)
    have := List.length_pos_iff.2 (List.splitOnP_ne_nil p w)
    simp only [List.length_append, List.length_singleton] at hlength
    omega

theorem suffix_of_splitOnP (h : t.splitOnP p = xs ++ [u]) : u <:+ t := by
  cases xs with
  | nil => exact (eq_of_splitOnP_eq_singleton h).1 ▸ List.suffix_rfl
  | cons x xs =>
    obtain ⟨v, y, w, rfl, -, -, hw⟩ :=
      exists_eq_of_splitOnP_eq_append h (List.cons_ne_nil x xs) (List.cons_ne_nil u [])
    rw [(eq_of_splitOnP_eq_singleton hw).1]
    exact ⟨v ++ [y], by simp⟩

end CanvasLift.Text
