import CanvasLift.Text.Wide

namespace CanvasLift

section

variable {α : Type} {p : α → Bool} {t : List α}

theorem dropWhile_append_of_ne_nil (h : t.dropWhile p ≠ []) (u : List α) :
    (t ++ u).dropWhile p = t.dropWhile p ++ u := by
  have hne : (t.dropWhile p).isEmpty = false := by simpa using h
  simp only [List.dropWhile_append, hne]
  rfl

theorem dropWhile_append_of_eq_nil (h : t.dropWhile p = []) (u : List α) :
    (t ++ u).dropWhile p = u.dropWhile p := by
  simp [List.dropWhile_append, h]

theorem reverse_dropWhile_append_cons {a : α} (ha : p a = false) (t u : List α) :
    ((t ++ a :: u).reverse.dropWhile p).reverse = t ++ a :: (u.reverse.dropWhile p).reverse := by
  have hstop : (a :: t.reverse).dropWhile p = a :: t.reverse :=
    List.dropWhile_cons_of_neg (by simp [ha])
  have hrev : (t ++ a :: u).reverse = u.reverse ++ a :: t.reverse := by simp
  rw [hrev, List.dropWhile_append, hstop]
  split
  · next hnil => simp [List.isEmpty_iff.1 hnil]
  · simp

theorem exists_eq_append_dropWhile (p : α → Bool) (t : List α) :
    ∃ front, t = front ++ t.dropWhile p ∧ ∀ a ∈ front, p a = true :=
  ⟨t.takeWhile p, List.takeWhile_append_dropWhile.symm, List.all_eq_true.1 List.all_takeWhile⟩

theorem exists_eq_reverse_dropWhile_append (p : α → Bool) (t : List α) :
    ∃ back, t = (t.reverse.dropWhile p).reverse ++ back ∧ ∀ a ∈ back, p a = true := by
  obtain ⟨front, hfront, hall⟩ := exists_eq_append_dropWhile p t.reverse
  refine ⟨front.reverse, ?_, fun a ha ↦ hall a (List.mem_reverse.1 ha)⟩
  rw [← List.reverse_append, ← hfront, List.reverse_reverse]

theorem not_mem_of_forall (h : ∀ a ∈ t, p a = true) {a : α} (ha : p a = false) : a ∉ t := by
  intro hmem
  rw [h a hmem] at ha
  cases ha

end

namespace Text

theorem not_mem_of_blank {t : Text} (h : ∀ c ∈ t, isBlank c = true) {c : Char}
    (hc : isBlank c = false) : c ∉ t :=
  not_mem_of_forall h hc

def isPadding (c : Char) : Bool := c = ' ' || c = '\t'

theorem isBlank_of_isPadding {c : Char} (h : isPadding c = true) : isBlank c = true := by
  rcases (by simpa [isPadding] using h : c = ' ' ∨ c = '\t') with rfl | rfl <;> decide

theorem allBlank_append {u : Text} (hu : ∀ c ∈ u, isBlank c = true) (t : Text) :
    allBlank (u ++ t) = allBlank t := by
  rw [allBlank, List.all_append, List.all_eq_true.2 hu, Bool.true_and]
  rfl

theorem indentation_append {u : Text} (hu : ∀ c ∈ u, isBlank c = true) (t : Text) :
    indentation (u ++ t) = u.length + indentation t := by
  rw [indentation, List.takeWhile_append_of_pos hu, List.length_append]
  rfl

theorem exists_head_of_indentation {line : Text} (h : allBlank line = false)
    (hindent : indentation line = 0) : ∃ c ∈ line.head?, isBlank c = false := by
  cases line with
  | nil => cases h
  | cons c rest =>
    refine ⟨c, rfl, Bool.eq_false_iff.2 fun hc ↦ ?_⟩
    rw [indentation, List.takeWhile_cons_of_pos hc] at hindent
    cases hindent

theorem exists_eq_append_drop {line : Text} {n : Nat} (h : n ≤ indentation line) :
    ∃ front, line = front ++ line.drop n ∧ front.length = n ∧ ∀ c ∈ front, isBlank c = true := by
  have hprefix : line.takeWhile isBlank <+: line := List.takeWhile_prefix _
  refine ⟨line.take n, (List.take_append_drop n line).symm, ?_, fun c hc ↦ ?_⟩
  · rw [List.length_take, Nat.min_eq_left (Nat.le_trans h hprefix.length_le)]
  · have hfront : line.take n <+: line.takeWhile isBlank :=
      List.prefix_of_prefix_length_le (List.take_prefix n line) hprefix (by
        rw [List.length_take]
        exact Nat.le_trans (Nat.min_le_left _ _) h)
    exact List.all_eq_true.1 List.all_takeWhile c (hfront.subset hc)

theorem trimStart_append {t : Text} (h : trimStart t ≠ []) (u : Text) :
    trimStart (t ++ u) = trimStart t ++ u :=
  dropWhile_append_of_ne_nil h u

theorem trimStart_append_of_nil {t : Text} (h : trimStart t = []) (u : Text) :
    trimStart (t ++ u) = trimStart u :=
  dropWhile_append_of_eq_nil h u

theorem trimEnd_append_cons {c : Char} (hc : isBlank c = false) (t u : Text) :
    trimEnd (t ++ c :: u) = t ++ c :: trimEnd u :=
  reverse_dropWhile_append_cons hc t u

theorem exists_eq_append_trimStart (t : Text) :
    ∃ front, t = front ++ trimStart t ∧ ∀ c ∈ front, isBlank c = true :=
  exists_eq_append_dropWhile isBlank t

theorem exists_eq_trimEnd_append (t : Text) :
    ∃ back, t = trimEnd t ++ back ∧ ∀ c ∈ back, isBlank c = true :=
  exists_eq_reverse_dropWhile_append isBlank t

theorem trimEnd_sublist (t : Text) : (trimEnd t).Sublist t := by
  have h := (List.dropWhile_sublist (l := t.reverse) isBlank).reverse
  rwa [List.reverse_reverse] at h

theorem trim_sublist (t : Text) : (trim t).Sublist t :=
  (trimEnd_sublist _).trans (List.dropWhile_sublist isBlank)

theorem trim_infix (t : Text) : trim t <:+: t := by
  obtain ⟨front, hfront, -⟩ := exists_eq_append_trimStart t
  obtain ⟨back, hback, -⟩ := exists_eq_trimEnd_append (trimStart t)
  refine ⟨front, back, ?_⟩
  rw [List.append_assoc, trim, ← hback, ← hfront]

def IsTrimmed (t : Text) : Prop :=
  (∀ c ∈ t.head?, isBlank c = false) ∧ ∀ c ∈ t.getLast?, isBlank c = false

theorem isBlank_of_mem_head?_dropWhile {t : Text} {c : Char} (h : c ∈ (t.dropWhile isBlank).head?) :
    isBlank c = false := by
  have hstop := List.head?_dropWhile_not isBlank t
  rw [Option.mem_def.1 h] at hstop
  simpa using hstop

theorem isTrimmed_trim (t : Text) : IsTrimmed (trim t) := by
  constructor
  · intro c hc
    obtain ⟨rest, hrest⟩ := List.head?_eq_some_iff.1 hc
    obtain ⟨back, hback, -⟩ := exists_eq_trimEnd_append (trimStart t)
    refine isBlank_of_mem_head?_dropWhile (t := t) ?_
    rw [← trimStart, hback, ← trim, hrest]
    rfl
  · intro c hc
    rw [trim, trimEnd, List.getLast?_reverse] at hc
    exact isBlank_of_mem_head?_dropWhile hc

theorem dropWhile_isBlank_append {u v : Text} (hu : ∀ c ∈ u, isBlank c = true)
    (hv : ∀ c ∈ v.head?, isBlank c = false) : (u ++ v).dropWhile isBlank = v := by
  rw [List.dropWhile_append_of_pos hu]
  cases v with
  | nil => rfl
  | cons c v => exact List.dropWhile_cons_of_neg (by simp [hv c rfl])

theorem trim_eq_self {t : Text} (h : IsTrimmed t) : trim t = t := by
  have hnil : ∀ c ∈ ([] : Text), isBlank c = true := by simp
  have hlast : ∀ c ∈ t.reverse.head?, isBlank c = false := by
    rw [List.head?_reverse]
    exact h.2
  have hstart : t.dropWhile isBlank = t := dropWhile_isBlank_append hnil h.1
  have hend : t.reverse.dropWhile isBlank = t.reverse := dropWhile_isBlank_append hnil hlast
  rw [trim, trimStart, hstart, trimEnd, hend, List.reverse_reverse]

theorem not_mem_trimStart {x : Char} {t : Text} (h : x ∉ t) : x ∉ trimStart t :=
  fun hx ↦ h ((List.dropWhile_suffix _).subset hx)

theorem not_mem_trimEnd {x : Char} {t : Text} (h : x ∉ t) : x ∉ trimEnd t := by
  intro hx
  rw [trimEnd, List.mem_reverse] at hx
  exact h (List.mem_reverse.1 ((List.dropWhile_suffix _).subset hx))

theorem not_mem_trim {x : Char} {t : Text} (h : x ∉ t) : x ∉ trim t :=
  not_mem_trimEnd (not_mem_trimStart h)

theorem trim_eq_of_surrounded {u w v : Text} (hu : ∀ c ∈ u, isBlank c = true)
    (hw : ∀ c ∈ w, isBlank c = false) (hv : ∀ c ∈ v, isBlank c = true) : trim (u ++ (w ++ v)) = w := by
  cases w with
  | nil =>
    have hnil : trimStart (u ++ ([] ++ v)) = [] := by
      rw [trimStart_eq_nil_iff, allBlank, List.all_eq_true]
      exact List.forall_mem_append.2 ⟨hu, hv⟩
    rw [trim, hnil]
    rfl
  | cons c w =>
    have hstart : trimStart (u ++ (c :: w ++ v)) = c :: w ++ v :=
      dropWhile_isBlank_append hu fun d hd ↦ hw d (by simp_all)
    rw [trim, hstart, trimEnd, List.reverse_append, dropWhile_isBlank_append (by simpa using hv),
      List.reverse_reverse]
    intro d hd
    exact hw d (List.mem_reverse.1 (List.mem_of_head? hd))

end Text

namespace WideText

variable {t : WideText}

theorem trimStart_append (h : trimStart t ≠ []) (u : WideText) :
    trimStart (t ++ u) = trimStart t ++ u :=
  dropWhile_append_of_ne_nil h u

theorem trimStart_append_of_nil (h : trimStart t = []) (u : WideText) :
    trimStart (t ++ u) = trimStart u :=
  dropWhile_append_of_eq_nil h u

theorem trimEnd_append_cons {s : Symbol} (hs : s.isBlank = false) (t u : WideText) :
    trimEnd (t ++ s :: u) = t ++ s :: trimEnd u :=
  reverse_dropWhile_append_cons hs t u

theorem exists_eq_append_trimStart (t : WideText) :
    ∃ front, t = front ++ trimStart t ∧ ∀ s ∈ front, s.isBlank = true :=
  exists_eq_append_dropWhile Symbol.isBlank t

theorem exists_eq_trimEnd_append (t : WideText) :
    ∃ back, t = trimEnd t ++ back ∧ ∀ s ∈ back, s.isBlank = true :=
  exists_eq_reverse_dropWhile_append Symbol.isBlank t

end WideText

end CanvasLift
