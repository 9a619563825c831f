import CanvasLift.Proofs.Canvas.Guard
import CanvasLift.Proofs.Canvas.Margin
import CanvasLift.Proofs.Project.Extraction

namespace CanvasLift

namespace Canvas

variable {id w : Text}

section Shift

variable (hw : ∀ c ∈ w, Text.isBlank c = true)
include hw

theorem capture?_guard_shift (line : Text) : guard.capture? (shift w line) = guard.capture? line := by
  rw [shift]
  split
  · rfl
  · exact capture?_guard_append hw line

theorem opens_handOver_shift (line : Text) : handOver.opens (shift w line) = handOver.opens line := by
  rw [shift]
  split
  · rfl
  · exact opens_handOver_append hw line

end Shift

namespace Span

/-- The lines of a document, those of an arm moved to the right by `w`. -/
def shift (s : Span) (w : Text) (lines : List Text) : List Text :=
  lines.take s.start ++ ((s.slice lines).map (Canvas.shift w) ++ lines.drop (s.stop + 1))

def Parts.shift (a : Parts id) (hw : ∀ c ∈ w, Text.isBlank c = true) : Parts id where
  above := a.above
  opening := Canvas.shift w a.opening
  payload := a.payload.map (Canvas.shift w)
  closing := Canvas.shift w a.closing
  below := a.below
  above_other := a.above_other
  opens := (capture?_guard_shift hw a.opening).trans a.opens
  payload_open := List.forall_mem_map.2 fun line hline ↦
    (opens_handOver_shift hw line).trans (a.payload_open line hline)
  closes := (opens_handOver_shift hw a.closing).trans a.closes

theorem Parts.shift_span (a : Parts id) (hw : ∀ c ∈ w, Text.isBlank c = true) :
    a.span.shift w a.lines = (a.shift hw).lines := by
  have habove : a.lines.take a.span.start = a.above := List.take_left
  have hbelow : a.lines.drop (a.span.stop + 1) = a.below := by
    have hlines : a.lines = (a.above ++ a.opening :: a.payload) ++ a.closing :: a.below := by
      simp [lines]
    have hlength : a.span.stop + 1 = (a.above ++ a.opening :: a.payload).length + 1 := by
      simp only [span, List.length_append, List.length_cons]
      omega
    rw [hlines, hlength]
    exact drop_length_succ_append _ _ _
  rw [Span.shift, habove, hbelow, a.slice_span]
  simp [lines, Parts.shift]

end Span

theorem Markup.ofBlock_congr {ls ls' : List Text} (h : dedent ls = dedent ls')
    (hr : ∀ line ∈ ls, '\r' ∉ line) (hn : ∀ line ∈ ls, '\n' ∉ line)
    (hr' : ∀ line ∈ ls', '\r' ∉ line) (hn' : ∀ line ∈ ls', '\n' ∉ line) :
    ofBlock (Text.unlines ls) = ofBlock (Text.unlines ls') := by
  have hlength := congrArg List.length h
  rw [dedent_eq_map, dedent_eq_map, List.length_map, List.length_map] at hlength
  by_cases hne : ls = []
  · subst hne
    rw [List.eq_nil_of_length_eq_zero hlength.symm]
  · have hne' : ls' ≠ [] := by
      rintro rfl
      exact hne (List.eq_nil_of_length_eq_zero hlength)
    rw [ofBlock, ofBlock, Text.lines_joinBreaks_unlines hne hr hn,
      Text.lines_joinBreaks_unlines hne' hr' hn', h]

end Canvas

namespace Extraction

open Canvas (Span dedent shift Spacing)
open Text (Writes)

/-- Dedenting takes the same number of characters from all lines that are not blank, blank ones only
and as many as there can be, and gives the same lines wherever a block stands. So a document in which
an arm is moved to the right as a whole gives the same source. -/
theorem margin_immaterial (lines : List Text) :
    dedent (dedent lines) = dedent lines ∧
    (dedent lines).length = lines.length ∧
    (∃ n : Nat, ∀ (i : Nat) (line : Text), lines[i]? = some line →
      (Text.allBlank line = true → (dedent lines)[i]? = some line) ∧
      (Text.allBlank line = false → ∃ front rest, line = front ++ rest ∧ front.length = n ∧
        (∀ c ∈ front, Text.isBlank c = true) ∧ (dedent lines)[i]? = some rest)) ∧
    ((∃ line ∈ lines, Text.allBlank line = false) →
      ∃ line ∈ dedent lines, ∃ c ∈ line.head?, Text.isBlank c = false) ∧
    ∀ w : Spacing, dedent (lines.map (shift w)) = dedent lines ∧
      ∀ (host host' : Host) (before before' : Workspace) (document document' : Path)
        (id content content' : Text) (s : Span),
        Writes lines content → Span.locate? lines id = some s → Writes (s.shift w lines) content' →
        before.tree.read (host.absolute document) = .ok (Utf8.encode content) →
        before'.tree.read (host'.absolute document') = .ok (Utf8.encode content') →
        ∃ source, ((run host id document).run before).1 = .ok source ∧
          ((run host' id document').run before').1 = .ok source := by
  refine ⟨Canvas.dedent_dedent lines, List.length_map _, ?_, ?_, fun w ↦ ⟨Canvas.dedent_shift w.2 lines, ?_⟩⟩
  · refine ⟨Canvas.margin lines, fun i line hline ↦ ?_⟩
    have hdedent : (dedent lines)[i]? = some (Canvas.outdent (Canvas.margin lines) line) := by
      rw [Canvas.dedent_eq_map, List.getElem?_map, hline, Option.map_some]
    refine ⟨fun hblank ↦ ?_, fun hblank ↦ ?_⟩
    · rw [hdedent, Canvas.outdent_of_blank hblank]
    · have hle := Canvas.margin_le (List.mem_of_getElem? hline) hblank
      obtain ⟨front, heq, hlength, hfront, -⟩ := Canvas.exists_outdent hle hblank
      exact ⟨front, _, heq, hlength, hfront, hdedent⟩
  · intro h
    obtain ⟨line, hline, hblank, hindent⟩ := Canvas.exists_dedented h
    exact ⟨line, hline, Text.exists_head_of_indentation hblank hindent⟩
  · intro host host' before before' document document' id content content' s hcontent hs hcontent' hread hread'
    obtain ⟨a, rfl, rfl⟩ := Span.locate?_eq_some_iff.1 hs
    rw [a.shift_span w.2] at hcontent'
    have hpayload : ∀ line ∈ a.payload, line ∈ a.lines := fun line hline ↦ by
      simp [Span.Parts.lines, hline]
    have hpayload' : ∀ line ∈ (a.shift w.2).payload, line ∈ (a.shift w.2).lines := fun line hline ↦ by
      simp [Span.Parts.lines, hline]
    have hmarkup : Canvas.Markup.ofBlock (Text.unlines (a.shift w.2).payload) =
        Canvas.Markup.ofBlock (Text.unlines a.payload) :=
      Canvas.Markup.ofBlock_congr (Canvas.dedent_shift w.2 a.payload)
        (fun line hline ↦ hcontent'.not_mem line (hpayload' line hline))
        (fun line hline ↦ hcontent'.lineFeed_not_mem line (hpayload' line hline))
        (fun line hline ↦ hcontent.not_mem line (hpayload line hline))
        (fun line hline ↦ hcontent.lineFeed_not_mem line (hpayload line hline))
    have hsource : sourceOfPayload id (a.shift w.2).payload = sourceOfPayload id a.payload := by
      rw [sourceOfPayload, sourceOfPayload, hmarkup]
    refine ⟨_, value_run_of_writes a hcontent hread, ?_⟩
    rw [← hsource]
    exact value_run_of_writes (a.shift w.2) hcontent' hread'

/-- A tile is moved to the right by a space and a tab. -/
theorem margin_immaterial_of_tile :
    let host : Host := .withYaml ⟨.root, []⟩ "/" []
    let document : Path := ⟨.root, ["a"]⟩
    let lines : List Text := ["<>", "\x7bel.type === 'tile' ? (", " <b>", "", "\tx", ") : ("]
    let w : Spacing := ⟨" \t", Text.forall_mem_of_all (by decide)⟩
    let s : Span := ⟨1, 5⟩
    let content : Text := "<>\n\x7bel.type === 'tile' ? (\r\n <b>\n\n\tx\n) : ("
    let content' : Text := "<>\n \t\x7bel.type === 'tile' ? (\n \t <b>\n\r\n \t\tx\n \t) : ("
    let before := Workspace.ofTree (Tree.empty.set ["a"] (.file (Utf8.encode content)))
    let before' := Workspace.ofTree (Tree.empty.set ["a"] (.file (Utf8.encode content')))
    Writes lines content ∧ Span.locate? lines "tile" = some s ∧ Writes (s.shift w lines) content' ∧
      before.tree.read (host.absolute document) = .ok (Utf8.encode content) ∧
      before'.tree.read (host.absolute document) = .ok (Utf8.encode content') ∧
      ∃ source, ((run host "tile" document).run before).1 = .ok source ∧
        ((run host "tile" document).run before').1 = .ok source := by
  intro host document lines w s content content' before before'
  have hcontent : Writes lines content :=
    .cons .lineFeed (by decide) (by decide) <|
      .cons .carriageReturnLineFeed (by decide) (by decide) <|
        .cons .lineFeed (by decide) (by decide) <| .cons .lineFeed (by decide) (by decide) <|
          .cons .lineFeed (by decide) (by decide) <| .last (by decide) (by decide)
  have hshifted : s.shift w lines =
      ["<>", " \t\x7bel.type === 'tile' ? (", " \t <b>", "", " \t\tx", " \t) : ("] := by decide
  have hcontent' : Writes (s.shift w lines) content' := by
    rw [hshifted]
    exact .cons .lineFeed (by decide) (by decide) <|
      .cons .lineFeed (by decide) (by decide) <|
        .cons .lineFeed (by decide) (by decide) <|
          .cons .carriageReturnLineFeed (by decide) (by decide) <|
            .cons .lineFeed (by decide) (by decide) <| .last (by decide) (by decide)
  have hs : Span.locate? lines "tile" = some s := by decide
  have hread : before.tree.read (host.absolute document) = .ok (Utf8.encode content) :=
    Tree.read_eq_ok_iff.2 ⟨["a"], rfl, rfl⟩
  have hread' : before'.tree.read (host.absolute document) = .ok (Utf8.encode content') :=
    Tree.read_eq_ok_iff.2 ⟨["a"], rfl, rfl⟩
  exact ⟨hcontent, hs, hcontent', hread, hread',
    ((margin_immaterial lines).2.2.2.2 w).2 host host before before' document document "tile" content
      content' s hcontent hs hcontent' hread hread'⟩

end Extraction

end CanvasLift
