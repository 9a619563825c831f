import CanvasLift.Proofs.Text.Parts
import CanvasLift.Proofs.Text.Trim
import CanvasLift.Service.Client

namespace CanvasLift.Client

theorem getElem?_length_takeWhile {α : Type} (p : α → Bool) (t : List α) :
    t[(t.takeWhile p).length]? = (t.dropWhile p).head? := by
  have hsplit : t[(t.takeWhile p).length]? =
      (t.takeWhile p ++ t.dropWhile p)[(t.takeWhile p).length]? := by
    rw [List.takeWhile_append_dropWhile]
  rw [hsplit, List.getElem?_append_right (Nat.le_refl _), Nat.sub_self, List.head?_eq_getElem?]

theorem hasScheme_iff {t : WideText} :
    hasScheme t = true ↔
      ∃ name rest, t = name ++ .char ':' :: rest ∧ name ≠ [] ∧
        ∀ c ∈ name, (c ≠ .char '/' && c ≠ .char ':') = true := by
  rw [hasScheme, getElem?_length_takeWhile]
  constructor
  · intro h
    simp only [Bool.and_eq_true, Bool.not_eq_true', List.isEmpty_eq_false_iff,
      decide_eq_true_eq] at h
    obtain ⟨hne, hhead⟩ := h
    obtain ⟨rest, hrest⟩ := List.head?_eq_some_iff.1 hhead
    refine ⟨_, rest, ?_, hne, List.all_eq_true.1 List.all_takeWhile⟩
    rw [← hrest, List.takeWhile_append_dropWhile]
  · intro h
    obtain ⟨name, rest, rfl, hne, hname⟩ := h
    rw [List.takeWhile_append_of_pos hname, List.dropWhile_append_of_pos hname]
    simp [hne]

theorem hasScheme_append {t : WideText} (h : hasScheme t = true) (u : WideText) :
    hasScheme (t ++ u) = true := by
  obtain ⟨name, rest, rfl, hne, hname⟩ := hasScheme_iff.1 h
  exact hasScheme_iff.2 ⟨name, rest ++ u, by simp, hne, hname⟩

theorem hasScheme_of_append {t u : WideText} (hu : .char ':' ∉ u) (h : hasScheme (t ++ u) = true) :
    hasScheme t = true := by
  obtain ⟨name, rest, heq, hne, hname⟩ := hasScheme_iff.1 h
  obtain ⟨tail, rfl, htail⟩ | ⟨tail, rfl, htail⟩ := List.append_eq_append_iff.1 heq
  · exact absurd (htail ▸ List.mem_append_right _ List.mem_cons_self) hu
  · cases tail with
    | nil =>
      have hmem : .char ':' ∈ [] ++ u := htail ▸ List.mem_cons_self
      exact absurd hmem hu
    | cons c tail =>
      obtain ⟨rfl, -⟩ := List.cons.inj htail
      exact hasScheme_iff.2 ⟨name, tail, rfl, hne, hname⟩

theorem withoutFragment_append {u : WideText} (hu : .char '#' ∉ u) (t : WideText) :
    withoutFragment (t ++ u) = if .char '#' ∈ t then withoutFragment t else t ++ u := by
  have hdrop : (t ++ u).reverse.dropWhile (· ≠ .char '#') = t.reverse.dropWhile (· ≠ .char '#') := by
    rw [List.reverse_append, List.dropWhile_append_of_pos]
    intro c hc
    simp
    rintro rfl
    exact hu (List.mem_reverse.1 hc)
  by_cases ht : .char '#' ∈ t
  · rw [if_pos ht, withoutFragment, withoutFragment, if_pos (List.mem_append_left u ht), if_pos ht,
      hdrop]
  · rw [if_neg ht, withoutFragment, if_neg (by simp [ht, hu])]

def NamesScheme (url : WideText) : Prop := hasScheme (withoutFragment url) = true

namespace NamesScheme

variable {t u front : WideText}

theorem append (h : NamesScheme t) (hu : .char '#' ∉ u) : NamesScheme (t ++ u) := by
  rw [NamesScheme, withoutFragment_append hu]
  split
  · exact h
  · next ht =>
    rw [NamesScheme, withoutFragment, if_neg ht] at h
    exact hasScheme_append h u

theorem of_append (h : NamesScheme (t ++ u)) (hu : .char '#' ∉ u) (hcolon : .char ':' ∉ u) :
    NamesScheme t := by
  rw [NamesScheme, withoutFragment_append hu] at h
  split at h
  · exact h
  · next ht =>
    rw [NamesScheme, withoutFragment, if_neg ht]
    exact hasScheme_of_append hcolon h

theorem ne_nil (h : NamesScheme t) : t ≠ [] := by
  rintro rfl
  cases h

end NamesScheme

theorem exists_eq_withoutFragment_append (url : WideText) :
    ∃ rest, url = withoutFragment url ++ rest := by
  obtain ⟨back, heq, -⟩ := exists_eq_reverse_dropWhile_append (· ≠ .char '#') url
  rw [withoutFragment]
  split
  · cases hdrop : url.reverse.dropWhile (· ≠ .char '#') with
    | nil => exact ⟨url, rfl⟩
    | cons c rest =>
      rw [hdrop, List.reverse_cons, List.append_assoc] at heq
      exact ⟨_, heq⟩
  · exact ⟨[], (List.append_nil url).symm⟩

theorem NamesScheme.hasScheme {t : WideText} (h : NamesScheme t) : hasScheme t = true := by
  obtain ⟨rest, heq⟩ := exists_eq_withoutFragment_append t
  rw [heq]
  exact hasScheme_append h rest

end CanvasLift.Client
