import CanvasLift.Canvas.Markup
import CanvasLift.Proofs.Identifier
import CanvasLift.Proofs.Pattern.Piece
import CanvasLift.Proofs.Text.Breaks
import CanvasLift.Proofs.Text.Distinct
import CanvasLift.Proofs.Text.Trim

namespace CanvasLift.Canvas

open Pattern

theorem not_mem_erase {a : Pattern} {x : Char} {t : Text} (h : x ∉ t) : x ∉ a.erase t :=
  not_mem_replace (fun _ _ ↦ List.not_mem_nil) h

def isLineEnd (c : Char) : Bool := c = '\r' || c = '\n'

variable {x : Char} {t line : Text}

theorem not_mem_of_isLineEnd (hx : isLineEnd x = true) (ht : t.all (!isLineEnd ·) = true) : x ∉ t := by
  intro hmem
  have hplain := List.all_eq_true.1 ht x hmem
  rw [hx] at hplain
  cases hplain

theorem not_mem_eraseAttributes (h : x ∉ line) : x ∉ eraseAttributes line := by
  rw [eraseAttributes]
  induction canvasAttributes generalizing line with
  | nil => exact h
  | cons a attributes ih => exact ih (not_mem_erase h)

theorem not_mem_resolveReferences (h : x ∉ line) : x ∉ resolveReferences line :=
  not_mem_replace (fun _ ↦ id) h

section LineEnd

variable (hx : isLineEnd x = true)
include hx

theorem not_mem_collapseSpaces (h : x ∉ t) : x ∉ collapseSpaces t :=
  not_mem_replace (fun _ _ ↦ not_mem_of_isLineEnd hx (by decide)) h

theorem not_mem_cleanClasses (h : x ∉ t) : x ∉ cleanClasses t :=
  Text.not_mem_trim (not_mem_collapseSpaces hx (not_mem_erase h))

theorem not_mem_cleanClassAttributes (h : x ∉ line) : x ∉ cleanClassAttributes line := by
  refine not_mem_replace (fun classes hclasses ↦ ?_) h
  have hopening : x ∉ ("className=\"" : Text) := not_mem_of_isLineEnd hx (by decide)
  have hclosing : x ∉ ("\"" : Text) := not_mem_of_isLineEnd hx (by decide)
  rw [List.mem_append, List.mem_append, not_or, not_or]
  exact ⟨⟨hopening, not_mem_cleanClasses hx hclasses⟩, hclosing⟩

theorem not_mem_tidy (h : x ∉ line) : x ∉ tidy line := by
  have hcontent : x ∉ Text.trimEnd (collapseSpaces (Text.trimStart line)) :=
    Text.not_mem_trimEnd (not_mem_collapseSpaces hx (Text.not_mem_trimStart h))
  rw [tidy]
  split
  · exact List.not_mem_nil
  · rw [List.mem_append, not_or]
    exact ⟨fun hmem ↦ h ((List.takeWhile_prefix _).subset hmem), hcontent⟩

theorem not_mem_stripAffordances (h : x ∉ line) : x ∉ stripAffordances line := by
  rw [stripAffordances]
  split
  · exact h
  · exact not_mem_tidy hx (not_mem_cleanClassAttributes hx (not_mem_eraseAttributes h))

theorem not_mem_normalizeCallbacks (h : x ∉ line) : x ∉ normalizeCallbacks line :=
  not_mem_replace (fun _ _ ↦ not_mem_of_isLineEnd hx (by decide)) h

end LineEnd

theorem not_mem_dedent {lines : List Text} (h : ∀ line ∈ lines, x ∉ line) :
    ∀ line ∈ dedent lines, x ∉ line := by
  intro line hline
  obtain ⟨old, hold, rfl⟩ := List.mem_map.1 hline
  split
  · exact h old hold
  · exact fun hx ↦ h old hold (List.mem_of_mem_drop hx)

theorem foldl_recordReferences_eq (found lines : List Text) :
    lines.foldl recordReferences found =
      (lines.flatMap scopeReference.captures).foldl Text.addNew found := by
  rw [List.foldl_flatMap]
  rfl

/-- All lines are searched for names, and each name is recorded where it comes first. -/
theorem foldl_recordReferences (lines : List Text) :
    lines.foldl recordReferences [] = Text.distinct (lines.flatMap scopeReference.captures) :=
  foldl_recordReferences_eq [] lines

theorem mem_foldl_recordReferences_iff {name : Text} {lines : List Text} :
    name ∈ lines.foldl recordReferences [] ↔ ∃ line ∈ lines, name ∈ scopeReference.captures line := by
  rw [foldl_recordReferences, Text.mem_distinct_iff, List.mem_flatMap]

theorem isNameChar_of_isNameStart {c : Char} (h : isNameStart c = true) : isNameChar c = true := by
  rw [isNameStart, Bool.or_eq_true_iff] at h
  rw [isNameChar, Bool.or_eq_true_iff]
  exact h.imp_left fun halpha ↦ Bool.or_eq_true_iff.2 (.inl halpha)

theorem isBlank_of_isNameChar {c : Char} (h : isNameChar c = true) : Text.isBlank c = false := by
  have hall : ∀ n < 128, isNameChar (Char.ofNat n) = true → Text.isBlank (Char.ofNat n) = false := by
    decide
  have hlt : c.toNat < 128 := by
    rcases Bool.or_eq_true_iff.1 h with halnum | hline
    · exact Identifier.toNat_lt_of_isAlphanum halnum
    · rw [of_decide_eq_true hline]
      decide
  have hc := hall c.toNat hlt
  rw [Char.ofNat_toNat] at hc
  exact hc h

theorem not_mem_of_isNameChar {name : Text} (h : ∀ c ∈ name, isNameChar c = true) {x : Char}
    (hx : isNameChar x = false) : x ∉ name := by
  intro hmem
  rw [h x hmem] at hx
  cases hx

theorem isNameChar_of_mem_captures {line name : Text} (h : name ∈ scopeReference.captures line) :
    ∀ c ∈ name, isNameChar c = true := by
  obtain ⟨place, d, hd, rfl⟩ := exists_ends_of_mem_captures h
  have hparts : scopeReference = chain ([wordEdge, literal "el."] ++
      capture (chain [one isNameStart, many isNameChar]) :: [wordEdge]) := rfl
  rw [hparts] at hd
  obtain ⟨_, _, -, -, htakes, -⟩ := takes_captured rfl hd
  obtain ⟨_, _, heq, ⟨first, rfl, hfirst⟩, rest, _, rfl, hrest, rfl⟩ := htakes
  rw [heq]
  intro c hc
  rcases List.mem_cons.1 hc with rfl | hc
  · exact isNameChar_of_isNameStart hfirst
  · exact hrest c (by simpa using hc)

theorem isNameChar_of_mem_props {block prop : Text} (h : prop ∈ (Markup.ofBlock block).props) :
    ∀ c ∈ prop, isNameChar c = true := by
  obtain ⟨line, -, hname⟩ := mem_foldl_recordReferences_iff.1 (List.mem_filter.1 h).1
  exact isNameChar_of_mem_captures hname

theorem not_mem_ofBlock {block : Text} (h : '\r' ∉ block) :
    '\r' ∉ (Markup.ofBlock block).body ∧ ∀ prop ∈ (Markup.ofBlock block).props, '\r' ∉ prop := by
  have hlines : ∀ line ∈ (dedent (Text.lines (Text.joinBreaks block))).map stripAffordances,
      '\r' ∉ line := by
    rw [Text.joinBreaks_of_not_mem h]
    refine List.forall_mem_map.2 fun line hline ↦ not_mem_stripAffordances rfl ?_
    exact not_mem_dedent (Text.not_mem_lines h) line hline
  rw [Markup.ofBlock]
  generalize (dedent _).map stripAffordances = lines at hlines
  constructor
  · dsimp only
    split
    · exact List.not_mem_nil
    · refine Text.not_mem_joinWith (by decide) (List.forall_mem_map.2 fun line hline ↦ ?_)
      exact not_mem_normalizeCallbacks rfl (not_mem_resolveReferences (hlines line hline))
  · intro prop hprop hx
    obtain ⟨line, hline, hname⟩ := mem_foldl_recordReferences_iff.1 (List.mem_filter.1 hprop).1
    exact hlines line hline (mem_of_mem_captures hname hx)

end CanvasLift.Canvas
