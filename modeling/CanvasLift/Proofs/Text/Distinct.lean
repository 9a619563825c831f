import CanvasLift.Text
import Mathlib.Data.List.Induction
import Mathlib.Data.List.Sort

namespace CanvasLift.Text

variable {t : Text} {seen ts us : List Text}

theorem mem_addNew_iff {u : Text} : u ∈ addNew seen t ↔ u ∈ seen ∨ u = t := by
  by_cases h : t ∈ seen
  · simp only [addNew, List.contains_iff_mem, h, if_true]
    constructor
    · exact .inl
    · rintro (hu | rfl)
      · exact hu
      · exact h
  · simp [addNew, h]

theorem mem_foldl_addNew_iff : t ∈ ts.foldl addNew seen ↔ t ∈ seen ∨ t ∈ ts := by
  induction ts generalizing seen with
  | nil => simp
  | cons u ts ih => rw [List.foldl_cons, ih, mem_addNew_iff, List.mem_cons, or_assoc]

theorem mem_distinct_iff : t ∈ distinct ts ↔ t ∈ ts := by
  rw [distinct, mem_foldl_addNew_iff, or_iff_right List.not_mem_nil]

theorem distinct_concat (ts : List Text) (t : Text) : distinct (ts ++ [t]) = addNew (distinct ts) t := by
  rw [distinct, List.foldl_append]
  rfl

theorem filter_distinct (p : Text → Bool) (ts : List Text) :
    (distinct ts).filter p = distinct (ts.filter p) := by
  induction ts using List.reverseRecOn with
  | nil => rfl
  | append_singleton ts t ih =>
    rw [distinct_concat, List.filter_append]
    by_cases ht : p t = true
    · have hkept : [t].filter p = [t] := by simp [ht]
      rw [hkept, distinct_concat, ← ih, addNew, addNew]
      by_cases hold : t ∈ distinct ts
      · rw [if_pos (by simpa using hold), if_pos (by simpa using ⟨hold, ht⟩)]
      · rw [if_neg (by simpa using hold), if_neg (by simp [hold]), List.filter_append, hkept]
    · have hnone : [t].filter p = [] := by simp [ht]
      rw [hnone, List.append_nil, ← ih, addNew]
      split
      · rfl
      · rw [List.filter_append, hnone, List.append_nil]

theorem pairwise_distinct (ts : List Text) :
    (distinct ts).Pairwise fun t u ↦ ts.idxOf t < ts.idxOf u := by
  induction ts using List.reverseRecOn with
  | nil => exact .nil
  | append_singleton ts t ih =>
    have hold : (distinct ts).Pairwise fun u v ↦ (ts ++ [t]).idxOf u < (ts ++ [t]).idxOf v := by
      refine ih.imp_of_mem fun hu hv hlt ↦ ?_
      rwa [List.idxOf_append_of_mem (mem_distinct_iff.1 hu),
        List.idxOf_append_of_mem (mem_distinct_iff.1 hv)]
    rw [distinct_concat, addNew]
    split
    · exact hold
    · next hnew =>
      have ht : t ∉ ts := by simpa [mem_distinct_iff] using hnew
      refine List.pairwise_append.2 ⟨hold, List.pairwise_singleton _ t, fun u hu v hv ↦ ?_⟩
      obtain rfl := List.mem_singleton.1 hv
      have hu := mem_distinct_iff.1 hu
      have hlt := List.idxOf_lt_length_of_mem hu
      rw [List.idxOf_append_of_mem hu, List.idxOf_append_of_notMem ht]
      omega

theorem foldl_addNew (seen ts : List Text) :
    ts.foldl addNew seen = seen ++ (distinct ts).filter (· ∉ seen) := by
  induction ts using List.reverseRecOn with
  | nil => exact (List.append_nil seen).symm
  | append_singleton ts t ih =>
    have hmem : t ∈ seen ++ (distinct ts).filter (· ∉ seen) ↔ t ∈ seen ∨ t ∈ distinct ts := by
      by_cases ht : t ∈ seen <;> simp [ht]
    rw [List.foldl_append, ih, distinct_concat, List.foldl_cons, List.foldl_nil, addNew, addNew]
    simp only [List.contains_iff_mem, hmem]
    by_cases hold : t ∈ distinct ts
    · rw [if_pos (.inr hold), if_pos hold]
    · by_cases hseen : t ∈ seen
      · rw [if_pos (.inl hseen), if_neg hold, List.filter_append]
        simp [hseen]
      · rw [if_neg (not_or.2 ⟨hseen, hold⟩), if_neg hold, List.filter_append, List.append_assoc]
        simp [hseen]

theorem nodup_of_pairwise_idxOf (h : us.Pairwise fun t u ↦ ts.idxOf t < ts.idxOf u) : us.Nodup :=
  h.imp fun hlt heq ↦ absurd hlt (by rw [heq]; omega)

theorem nodup_distinct (ts : List Text) : (distinct ts).Nodup :=
  nodup_of_pairwise_idxOf (pairwise_distinct ts)

theorem eq_distinct_iff : us = distinct ts ↔
    (∀ t, t ∈ us ↔ t ∈ ts) ∧ us.Pairwise fun t u ↦ ts.idxOf t < ts.idxOf u := by
  constructor
  · intro h
    rw [h]
    exact ⟨fun t ↦ mem_distinct_iff, pairwise_distinct ts⟩
  · intro h
    obtain ⟨hmem, horder⟩ := h
    have hperm : us.Perm (distinct ts) := by
      rw [List.perm_ext_iff_of_nodup (nodup_of_pairwise_idxOf horder) (nodup_distinct ts)]
      intro t
      rw [hmem, mem_distinct_iff]
    exact hperm.eq_of_pairwise (fun t u _ _ hlt hgt ↦ absurd hlt (by omega)) horder
      (pairwise_distinct ts)

end CanvasLift.Text
