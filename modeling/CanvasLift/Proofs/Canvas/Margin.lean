import CanvasLift.Canvas.Margin
import CanvasLift.Proofs.Text.Trim

namespace CanvasLift.Canvas

variable {lines : List Text} {line w : Text} {n : Nat}

/-- A line at `n` characters further to the left, unless it is blank. -/
def outdent (n : Nat) (line : Text) : Text := if Text.allBlank line then line else line.drop n

def shift (w line : Text) : Text := if Text.allBlank line then line else w ++ line

theorem dedent_eq_map (lines : List Text) : dedent lines = lines.map (outdent (margin lines)) := rfl

theorem outdent_of_blank (h : Text.allBlank line = true) : outdent n line = line := if_pos h

theorem outdent_of_not_blank (h : Text.allBlank line = false) : outdent n line = line.drop n :=
  if_neg (Bool.eq_false_iff.1 h)

theorem shift_of_blank (h : Text.allBlank line = true) : shift w line = line := if_pos h

theorem shift_of_not_blank (h : Text.allBlank line = false) : shift w line = w ++ line :=
  if_neg (Bool.eq_false_iff.1 h)

theorem margin_eq_iff (h : ∃ line ∈ lines, Text.allBlank line = false) :
    margin lines = n ↔
      (∃ line ∈ lines, Text.allBlank line = false ∧ Text.indentation line = n) ∧
        ∀ line ∈ lines, Text.allBlank line = false → n ≤ Text.indentation line := by
  have hwidths : margin lines = n ↔
      ((lines.filter fun line ↦ !Text.allBlank line).map Text.indentation).min? = some n := by
    rw [margin]
    cases hmin : ((lines.filter fun line ↦ !Text.allBlank line).map Text.indentation).min? with
    | none =>
      obtain ⟨line, hline, hblank⟩ := h
      rw [List.min?_eq_none_iff, List.map_eq_nil_iff, List.filter_eq_nil_iff] at hmin
      exact absurd (by rw [hblank]; rfl) (hmin line hline)
    | some m => rw [Option.getD_some, Option.some.injEq]
  rw [hwidths, List.min?_eq_some_iff, List.forall_mem_map]
  simp only [List.mem_map, List.mem_filter, Bool.not_eq_true', and_imp, and_assoc]

theorem margin_of_all_blank (h : ∀ line ∈ lines, Text.allBlank line = true) : margin lines = 0 := by
  have hnone : lines.filter (fun line ↦ !Text.allBlank line) = [] :=
    List.filter_eq_nil_iff.2 fun line hline ↦ by simp [h line hline]
  rw [margin, hnone]
  rfl

theorem all_blank_or_exists (lines : List Text) :
    (∀ line ∈ lines, Text.allBlank line = true) ∨ ∃ line ∈ lines, Text.allBlank line = false := by
  by_cases h : ∃ line ∈ lines, Text.allBlank line = false
  · exact .inr h
  · refine .inl fun line hline ↦ ?_
    rw [← Bool.not_eq_false]
    exact fun hblank ↦ h ⟨line, hline, hblank⟩

theorem margin_le (hline : line ∈ lines) (h : Text.allBlank line = false) :
    margin lines ≤ Text.indentation line :=
  ((margin_eq_iff ⟨line, hline, h⟩).1 rfl).2 line hline h

theorem exists_outdent (hn : n ≤ Text.indentation line) (h : Text.allBlank line = false) :
    ∃ front, line = front ++ outdent n line ∧ front.length = n ∧
      (∀ c ∈ front, Text.isBlank c = true) ∧ Text.allBlank (outdent n line) = false ∧
      Text.indentation line = n + Text.indentation (outdent n line) := by
  obtain ⟨front, heq, hlength, hfront⟩ := Text.exists_eq_append_drop hn
  rw [outdent_of_not_blank h]
  generalize line.drop n = rest at heq
  subst heq hlength
  rw [Text.allBlank_append hfront] at h
  exact ⟨front, rfl, rfl, hfront, h, Text.indentation_append hfront rest⟩

theorem exists_dedented (h : ∃ line ∈ lines, Text.allBlank line = false) :
    ∃ line ∈ dedent lines, Text.allBlank line = false ∧ Text.indentation line = 0 := by
  obtain ⟨⟨line, hline, hblank, hindent⟩, -⟩ := (margin_eq_iff h).1 rfl
  obtain ⟨front, -, -, -, hblank', hindent'⟩ := exists_outdent (Nat.le_of_eq hindent.symm) hblank
  refine ⟨outdent (margin lines) line, List.mem_map_of_mem hline, hblank', ?_⟩
  omega

theorem margin_dedent (lines : List Text) : margin (dedent lines) = 0 := by
  obtain h | h := all_blank_or_exists lines
  · refine margin_of_all_blank (List.forall_mem_map.2 fun line hline ↦ ?_)
    rw [if_pos (h line hline)]
    exact h line hline
  · obtain ⟨line, hline, hblank, hindent⟩ := exists_dedented h
    exact (margin_eq_iff ⟨line, hline, hblank⟩).2 ⟨⟨line, hline, hblank, hindent⟩, fun _ _ _ ↦ Nat.zero_le _⟩

theorem map_outdent_zero (lines : List Text) : lines.map (outdent 0) = lines := by
  have hid : outdent 0 = id := by
    funext line
    exact ite_self line
  rw [hid, List.map_id]

theorem dedent_dedent (lines : List Text) : dedent (dedent lines) = dedent lines := by
  rw [dedent_eq_map (dedent lines), margin_dedent, map_outdent_zero]

section Shift

variable (hw : ∀ c ∈ w, Text.isBlank c = true)
include hw

theorem allBlank_shift (line : Text) : Text.allBlank (shift w line) = Text.allBlank line := by
  cases h : Text.allBlank line with
  | true => rw [shift_of_blank h, h]
  | false => rw [shift_of_not_blank h, Text.allBlank_append hw, h]

theorem indentation_shift (h : Text.allBlank line = false) :
    Text.indentation (shift w line) = w.length + Text.indentation line := by
  rw [shift_of_not_blank h, Text.indentation_append hw]

theorem outdent_shift (n : Nat) (line : Text) :
    outdent (w.length + n) (shift w line) = outdent n line := by
  have hblank := allBlank_shift hw line
  cases h : Text.allBlank line with
  | true =>
    rw [h] at hblank
    rw [outdent_of_blank hblank, outdent_of_blank h, shift_of_blank h]
  | false =>
    rw [h] at hblank
    rw [outdent_of_not_blank hblank, outdent_of_not_blank h, shift_of_not_blank h, List.drop_length_add_append]

theorem margin_shift (h : ∃ line ∈ lines, Text.allBlank line = false) :
    margin (lines.map (shift w)) = w.length + margin lines := by
  obtain ⟨⟨line, hline, hblank, hindent⟩, hle⟩ := (margin_eq_iff h).1 rfl
  have hline' : shift w line ∈ lines.map (shift w) := List.mem_map_of_mem hline
  have hblank' : Text.allBlank (shift w line) = false := (allBlank_shift hw line).trans hblank
  refine (margin_eq_iff ⟨_, hline', hblank'⟩).2 ⟨⟨_, hline', hblank', ?_⟩, ?_⟩
  · rw [indentation_shift hw hblank, hindent]
  · refine List.forall_mem_map.2 fun other hother hblank ↦ ?_
    rw [allBlank_shift hw] at hblank
    rw [indentation_shift hw hblank]
    exact Nat.add_le_add_left (hle other hother hblank) _

/-- How far to the right a block stands makes no difference. -/
theorem dedent_shift (lines : List Text) : dedent (lines.map (shift w)) = dedent lines := by
  obtain h | h := all_blank_or_exists lines
  · have hsame : lines.map (shift w) = lines.map id :=
      List.map_congr_left fun line hline ↦ shift_of_blank (h line hline)
    rw [hsame, List.map_id]
  · rw [dedent_eq_map, margin_shift hw h, List.map_map]
    exact List.map_congr_left fun line _ ↦ outdent_shift hw _ line

end Shift

end CanvasLift.Canvas
