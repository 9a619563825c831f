import CanvasLift.Proofs.Text.Parts

namespace CanvasLift.Text

variable {p : Char → Bool} {s t u v : Text} {x : Char}

theorem append_cons_eq_append_iff :
    u ++ x :: v = s ++ t ↔
      (∃ z, s = u ++ x :: z ∧ v = z ++ t) ∨ ∃ z, u = s ++ z ∧ t = z ++ x :: v := by
  rw [List.append_eq_append_iff]
  constructor
  · intro h
    obtain ⟨z, rfl, hz⟩ | ⟨z, rfl, rfl⟩ := h
    · cases z with
      | nil => exact .inr ⟨[], by simp, hz.symm⟩
      | cons y z =>
        obtain ⟨rfl, rfl⟩ := List.cons.inj hz
        exact .inl ⟨z, rfl, rfl⟩
    · exact .inr ⟨z, rfl, rfl⟩
  · intro h
    obtain ⟨z, rfl, rfl⟩ | ⟨z, rfl, rfl⟩ := h
    · exact .inl ⟨x :: z, rfl, rfl⟩
    · exact .inr ⟨z, rfl, rfl⟩

theorem exists_of_word {w front back : Text} {c : Char} (hx : x ∉ w) (hc : c ∈ w) (hu : c ∉ u)
    (h : front ++ (w ++ back) = u ++ x :: v) : ∃ z, v = z ++ (w ++ back) := by
  obtain ⟨z, -, hz⟩ | ⟨z, rfl, hz⟩ := append_cons_eq_append_iff.1 h.symm
  · exact ⟨z, hz⟩
  · obtain ⟨y, rfl, -⟩ | ⟨y, rfl, -⟩ := append_cons_eq_append_iff.1 hz.symm
    · exact absurd (by simp) hx
    · exact absurd (by simp [hc]) hu

theorem suffix_append_cons_iff {w : Text} (hx : x ∉ w) :
    w <:+ u ++ x :: v ↔ w <:+ v := by
  constructor
  · intro h
    obtain ⟨front, h⟩ := h
    obtain ⟨z, rfl, rfl⟩ | ⟨z, rfl, rfl⟩ := append_cons_eq_append_iff.1 h.symm
    · exact List.suffix_append _ _
    · exact absurd (by simp) hx
  · intro h
    exact h.trans ((List.suffix_cons x v).trans (List.suffix_append u _))

/-- A text is cut in one way only where a run of a class starts. -/
theorem append_inj_of_getLast (hs : ∃ c ∈ s.getLast?, p c = false) (ht : ∃ c ∈ t.getLast?, p c = false)
    (hu : ∀ c ∈ u, p c = true) (hv : ∀ c ∈ v, p c = true) (h : s ++ u = t ++ v) :
    s = t ∧ u = v := by
  rw [← List.head?_reverse] at hs ht
  have hreverse := congrArg List.reverse h
  rw [List.reverse_append, List.reverse_append] at hreverse
  obtain ⟨huv, hst⟩ := append_inj_of_head (by simpa using hu) (by simpa using hv) hs ht hreverse
  exact ⟨List.reverse_inj.1 hst, List.reverse_inj.1 huv⟩

theorem exists_of_run (hu : ∀ c ∈ u, p c = true) (ht : ∃ c ∈ t.head?, p c = false)
    (h : u ++ v = s ++ t) : ∃ y, s = u ++ y ∧ v = y ++ t := by
  obtain h | ⟨y, rfl, hy⟩ := List.append_eq_append_iff.1 h
  · exact h
  · cases y with
    | nil => exact ⟨[], by simp, hy.symm⟩
    | cons c y =>
      obtain ⟨d, hd, hpd⟩ := ht
      rw [hy] at hd
      obtain rfl := Option.some.inj hd
      rw [hu c (by simp)] at hpd
      cases hpd

theorem exists_of_run_end (hv : ∀ c ∈ v, p c = true) (hs : ∃ c ∈ s.getLast?, p c = false)
    (h : u ++ v = s ++ t) : ∃ y, u = s ++ y ∧ t = y ++ v := by
  rw [← List.head?_reverse] at hs
  have hreverse := congrArg List.reverse h
  rw [List.reverse_append, List.reverse_append] at hreverse
  obtain ⟨y, ht, hu⟩ := exists_of_run (by simpa using hv) hs hreverse
  exact ⟨y.reverse, by simpa using congrArg List.reverse hu, by simpa using congrArg List.reverse ht⟩

end CanvasLift.Text
