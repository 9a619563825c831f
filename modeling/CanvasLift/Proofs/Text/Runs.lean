import CanvasLift.Proofs.Text.Cuts
import CanvasLift.Proofs.Text.Trim

/-!
The runs of a class in a text, the longest stretches of its characters, and the words, which are the
runs of characters that are not blank. The main statements are that a character outside of the class
parts the runs of a text, and that a run is a stretch that stands alone.
-/

namespace CanvasLift.Text

variable {p : Char → Bool} {t u v w : Text} {x : Char}

def runs (p : Char → Bool) (t : Text) : List Text := (t.splitOnP fun c ↦ !p c).filter (· ≠ [])

def words (t : Text) : List Text := runs (fun c ↦ !isBlank c) t

/-- What stands before and after `w` in `t` is not of the class. -/
def StandsAlone (p : Char → Bool) (w t : Text) : Prop :=
  ∃ before after, t = before ++ (w ++ after) ∧ (∀ c ∈ before.getLast?, p c = false) ∧
    ∀ c ∈ after.head?, p c = false

theorem exists_stretch (p : Char → Bool) (t : Text) :
    ∃ w rest, t = w ++ rest ∧ (∀ c ∈ w, p c = true) ∧ rest.head?.any p = false := by
  refine ⟨t.takeWhile p, t.dropWhile p, List.takeWhile_append_dropWhile.symm,
    List.all_eq_true.1 List.all_takeWhile, ?_⟩
  have hstop := List.head?_dropWhile_not p t
  cases h : (t.dropWhile p).head? with
  | none => rfl
  | some c => simpa [h] using hstop

/-- A text is one stretch of a class, or such a stretch, a character of another kind and a text. -/
@[elab_as_elim]
theorem stretchInduction {motive : Text → Prop} (p : Char → Bool)
    (stretch : ∀ w, (∀ c ∈ w, p c = true) → motive w)
    (cut : ∀ w x rest, (∀ c ∈ w, p c = true) → p x = false → motive rest → motive (w ++ x :: rest))
    (t : Text) : motive t := by
  -- The stretch read so far stands before what is left of the text.
  suffices h : ∀ w : Text, (∀ c ∈ w, p c = true) → motive (w ++ t) from h [] (by simp)
  induction t with
  | nil =>
    intro w hw
    rw [List.append_nil]
    exact stretch w hw
  | cons x t ih =>
    intro w hw
    cases hx : p x with
    | false => exact cut w x t hw hx (ih [] (by simp))
    | true =>
      rw [List.append_cons]
      exact ih (w ++ [x]) (List.forall_mem_append.2 ⟨hw, by simpa using hx⟩)

theorem runs_append_cons (hx : p x = false) (u v : Text) :
    runs p (u ++ x :: v) = runs p u ++ runs p v := by
  rw [runs, List.splitOnP_append_cons u v (by simp [hx]), List.filter_append]
  rfl

theorem runs_of_stretch (hw : ∀ c ∈ w, p c = true) : runs p w = if w = [] then [] else [w] := by
  rw [runs, List.splitOnP_eq_singleton (by simpa using hw)]
  split
  · next hnil => simp [hnil]
  · next hne => simp [hne]

theorem runs_append_left (hu : ∀ c ∈ u, p c = false) (v : Text) : runs p (u ++ v) = runs p v := by
  induction u with
  | nil => rfl
  | cons x u ih =>
    obtain ⟨hx, hu⟩ := List.forall_mem_cons.1 hu
    have hcut : runs p (x :: (u ++ v)) = runs p [] ++ runs p (u ++ v) := runs_append_cons hx [] _
    exact hcut.trans (ih hu)

theorem runs_append_right (hv : ∀ c ∈ v, p c = false) (u : Text) : runs p (u ++ v) = runs p u := by
  cases v with
  | nil => rw [List.append_nil]
  | cons x v =>
    obtain ⟨hx, hv⟩ := List.forall_mem_cons.1 hv
    have hrest : runs p (v ++ []) = runs p [] := runs_append_left hv []
    rw [List.append_nil] at hrest
    rw [runs_append_cons hx, hrest]
    exact List.append_nil _

theorem runs_trim (hp : ∀ c, isBlank c = true → p c = false) (t : Text) :
    runs p (trim t) = runs p t := by
  obtain ⟨front, hfront, hfrontBlank⟩ := exists_eq_append_trimStart t
  obtain ⟨back, hback, hbackBlank⟩ := exists_eq_trimEnd_append (trimStart t)
  have hstart : runs p (front ++ trimStart t) = runs p (trimStart t) :=
    runs_append_left (fun c hc ↦ hp c (hfrontBlank c hc)) _
  have hend : runs p (trimEnd (trimStart t) ++ back) = runs p (trimEnd (trimStart t)) :=
    runs_append_right (fun c hc ↦ hp c (hbackBlank c hc)) _
  rw [← hfront] at hstart
  rw [← hback] at hend
  exact (hstart.trans hend).symm

theorem words_trim (t : Text) : words (trim t) = words t := runs_trim (by simp) t

theorem standsAlone_stretch_iff (hu : ∀ c ∈ u, p c = true) : StandsAlone p w u ↔ w = u := by
  constructor
  · rintro ⟨before, after, rfl, hbefore, hafter⟩
    obtain ⟨hleft, hright⟩ := List.forall_mem_append.1 hu
    obtain rfl : before = [] := by
      refine List.getLast?_eq_none_iff.1 (Option.eq_none_iff_forall_not_mem.2 fun c hc ↦ ?_)
      have hclass := hleft c (List.mem_of_getLast? hc)
      rw [hbefore c hc] at hclass
      cases hclass
    obtain rfl : after = [] := by
      refine List.head?_eq_none_iff.1 (Option.eq_none_iff_forall_not_mem.2 fun c hc ↦ ?_)
      have hclass := hright c (List.mem_append_right w (List.mem_of_head? hc))
      rw [hafter c hc] at hclass
      cases hclass
    simp
  · rintro rfl
    exact ⟨[], [], by simp, by simp, by simp⟩

theorem standsAlone_append_cons_iff (hw : ∀ c ∈ w, p c = true) (hx : p x = false) :
    StandsAlone p w (u ++ x :: v) ↔ StandsAlone p w u ∨ StandsAlone p w v := by
  have hmem : x ∉ w := fun h ↦ by simp [hw x h] at hx
  constructor
  · rintro ⟨before, after, heq, hbefore, hafter⟩
    obtain ⟨z, rfl, rfl⟩ | ⟨z, rfl, hz⟩ := append_cons_eq_append_iff.1 heq
    · refine .inr ⟨z, after, rfl, fun c hc ↦ ?_, hafter⟩
      obtain ⟨z, rfl⟩ := List.getLast?_eq_some_iff.1 hc
      have hsplit : u ++ x :: (z ++ [c]) = (u ++ x :: z) ++ [c] := by simp
      rw [hsplit, List.getLast?_concat] at hbefore
      exact hbefore c rfl
    · obtain ⟨y, rfl, -⟩ | ⟨y, rfl, rfl⟩ := append_cons_eq_append_iff.1 hz.symm
      · exact absurd (by simp) hmem
      · refine .inl ⟨before, y, rfl, hbefore, fun c hc ↦ ?_⟩
        obtain ⟨y, rfl⟩ := List.head?_eq_some_iff.1 hc
        exact hafter c rfl
  · rintro (⟨before, after, rfl, hbefore, hafter⟩ | ⟨before, after, rfl, hbefore, hafter⟩)
    · refine ⟨before, after ++ x :: v, by simp, hbefore, ?_⟩
      cases after with
      | nil => simpa using hx
      | cons y after => exact hafter
    · refine ⟨u ++ x :: before, after, by simp, ?_, hafter⟩
      obtain rfl | ⟨before, y, rfl⟩ := List.eq_nil_or_concat before
      · simpa using hx
      · rw [List.concat_eq_append, ← List.cons_append, ← List.append_assoc, List.getLast?_concat]
        simpa using hbefore

theorem mem_runs_iff (hw : ∀ c ∈ w, p c = true) (hne : w ≠ []) :
    w ∈ runs p t ↔ StandsAlone p w t := by
  induction t using stretchInduction p with
  | stretch u hu =>
    rw [runs_of_stretch hu, standsAlone_stretch_iff hu]
    split
    · next hnil => simp [hnil, hne]
    · simp
  | cut u x rest hu hx ih =>
    rw [runs_append_cons hx, List.mem_append, ih, standsAlone_append_cons_iff hw hx, runs_of_stretch hu,
      standsAlone_stretch_iff hu]
    split
    · next hnil => simp [hnil, hne]
    · simp

end CanvasLift.Text
