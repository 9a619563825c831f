import CanvasLift.Proofs.Canvas.Scope
import CanvasLift.Proofs.Text.Distinct

namespace CanvasLift.Canvas

open Pattern

variable {last last' : Option Char} {t u v out : Text} {names : List Text}

theorem Reads.of_not_isWord (hlast : last.any Text.isWord = false)
    (hlast' : last'.any Text.isWord = false) (h : Reads last t names out) :
    Reads last' t names out := by
  cases h with
  | nil => exact .nil
  | reference _ hname h => exact .reference hlast' hname h
  | letter hnone h => exact .letter (fun hrefers ↦ hnone ⟨hlast, hrefers.2⟩) h

theorem separates_lineFeed : Separates '\n' := by
  refine ⟨?_, ?_⟩ <;> decide

theorem reads_append_cons (u v : Text) :
    resolveReferences (u ++ '\n' :: v) = resolveReferences u ++ '\n' :: resolveReferences v ∧
      scopeReference.captures (u ++ '\n' :: v) =
        scopeReference.captures u ++ scopeReference.captures v := by
  obtain ⟨names₁, out₁, names₂, out₂, hu, hv, hnames, hout⟩ :=
    (reads_line (u ++ '\n' :: v)).split separates_lineFeed
  have hbreak : (some '\n').any Text.isWord = false := separates_lineFeed.1
  have hv : Reads none v names₂ out₂ := hv.of_not_isWord hbreak rfl
  obtain ⟨rfl, rfl⟩ := hu.unique (reads_line u)
  obtain ⟨rfl, rfl⟩ := hv.unique (reads_line v)
  exact ⟨hout, hnames⟩

theorem resolveReferences_unlines (lines : List Text) :
    resolveReferences (Text.unlines lines) = Text.unlines (lines.map resolveReferences) := by
  induction lines with
  | nil => rfl
  | cons line lines ih =>
    cases lines with
    | nil => rw [List.map_singleton, Text.unlines_singleton, Text.unlines_singleton]
    | cons next lines =>
      rw [Text.unlines_cons, (reads_append_cons line _).1, ih, List.map_cons, List.map_cons,
        List.map_cons, Text.unlines_cons]

theorem captures_unlines (lines : List Text) :
    scopeReference.captures (Text.unlines lines) = lines.flatMap scopeReference.captures := by
  induction lines with
  | nil => rfl
  | cons line lines ih =>
    cases lines with
    | nil => rw [Text.unlines_singleton, List.flatMap_singleton]
    | cons next lines =>
      rw [Text.unlines_cons, (reads_append_cons line _).2, ih]
      rfl

/-- The names of a text are recorded once each, behind those on record and in the order in which they
come first. -/
theorem recordReferences_eq (found : List Text) (t : Text) : recordReferences found t =
    found ++ (Text.distinct (scopeReference.captures t)).filter (· ∉ found) :=
  Text.foldl_addNew found _

/-- Lines that are rewritten in order, with their names on one record, are the lines of the whole text
rewritten at once, and leave the same record. To the names that were on it before, it adds those matched
in the text that are new, each where it comes first and no second time. -/
theorem lines_rewritten_as_one (found lines : List Text) :
    let whole := Text.unlines lines
    let matched := scopeReference.captures whole
    Text.unlines (lines.map resolveReferences) = resolveReferences whole ∧
      lines.foldl recordReferences found = recordReferences found whole ∧
      ∃ new, recordReferences found whole = found ++ new ∧
        (∀ name, name ∈ new ↔ name ∈ matched ∧ name ∉ found) ∧
        new.Pairwise fun name other ↦ matched.idxOf name < matched.idxOf other := by
  intro whole matched
  refine ⟨(resolveReferences_unlines lines).symm, ?_, _, recordReferences_eq found whole, ?_, ?_⟩
  · rw [foldl_recordReferences_eq, ← captures_unlines]
    rfl
  · intro name
    rw [List.mem_filter, Text.mem_distinct_iff, decide_eq_true_eq]
  · exact (Text.pairwise_distinct matched).filter _

end CanvasLift.Canvas
