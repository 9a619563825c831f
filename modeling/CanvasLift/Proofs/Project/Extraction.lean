import CanvasLift.Project.Extraction
import CanvasLift.Project.Settings
import CanvasLift.Proofs.Canvas.Arm
import CanvasLift.Proofs.Canvas.Markup
import CanvasLift.Proofs.Component.Source
import CanvasLift.Proofs.Files.Limits
import CanvasLift.Proofs.Text.Utf8

namespace CanvasLift.Extraction

open Canvas (Span)
open Text (Writes)

def sourceOfPayload (id : Text) (payload : List Text) : Text :=
  let markup := Canvas.Markup.ofBlock (Text.unlines payload)
  Component.source id markup.body markup.props (Component.Dependencies.ofBody markup.body)

theorem ofLines?_lines {id : Text} (a : Span.Parts id) :
    ofLines? a.lines id = some ⟨a.span, Text.unlines a.payload,
      Canvas.Markup.ofBlock (Text.unlines a.payload), sourceOfPayload id a.payload⟩ := by
  simp only [ofLines?, a.locate?_lines, Option.bind_eq_bind, Option.bind_some, a.payload_span]
  rfl

theorem not_mem_sourceOfPayload (id : Text) {payload : List Text}
    (h : ∀ line ∈ payload, '\r' ∉ line) : '\r' ∉ sourceOfPayload id payload := by
  have hblock : '\r' ∉ Text.unlines payload := Text.not_mem_joinWith (by decide) h
  obtain ⟨hbody, hprops⟩ := Canvas.not_mem_ofBlock hblock
  exact Component.not_mem_source id hbody hprops (Component.not_mem_glyphs_ofBody (by decide) _)

theorem readDocument_eq_ok {t : Tree} {document : Path} {content : Text}
    (h : t.read document = .ok (Utf8.encode content)) :
    readDocument t document = .ok (Text.unifyBreaks content) := by
  have hfile : t.isFile document = .ok true := by
    obtain ⟨l, hl, hcontent⟩ := Tree.read_eq_ok_iff.1 h
    exact Tree.isFile_eq_true_iff.2 ⟨l, _, hl, hcontent⟩
  simp only [readDocument, hfile, h, Utf8.decode_encode]

theorem not_mem_of_readDocument {t : Tree} {document : Path} {content : Text}
    (h : readDocument t document = .ok content) : '\r' ∉ content := by
  rw [readDocument.eq_def] at h
  split at h
  · cases h
  · cases h
  · split at h
    · cases h
    · split at h
      · cases h
      · obtain rfl := Except.ok.inj h
        exact Text.not_mem_unifyBreaks _

theorem exists_payload_of_ofTree {t : Tree} {id : Text} {document : Path} {e : Extraction}
    (h : ofTree t id document = .ok e) :
    ∃ payload, (∀ line ∈ payload, '\r' ∉ line) ∧
      e.markup = Canvas.Markup.ofBlock (Text.unlines payload) ∧
      e.source = sourceOfPayload id payload := by
  rw [ofTree] at h
  cases hread : readDocument t document with
  | error fault =>
    rw [hread] at h
    cases h
  | ok content =>
    rw [hread] at h
    have hcontent : '\r' ∉ content := not_mem_of_readDocument hread
    cases hlines : ofLines? (Text.lines content) id with
    | none =>
      simp only [bind, Except.bind, hlines] at h
      cases h
    | some found =>
      simp only [bind, Except.bind, hlines] at h
      obtain rfl := Except.ok.inj h
      obtain ⟨span, -, hfound⟩ := Option.bind_eq_some_iff.1 hlines
      obtain rfl := Option.some.inj hfound
      refine ⟨span.payload (Text.lines content), fun line hline ↦ ?_, rfl, rfl⟩
      exact Text.not_mem_lines hcontent line (List.mem_of_mem_drop (List.mem_of_mem_take hline))

theorem readDocument_congr {t u : Tree} {document : Path} (h : t.SameDirectories u)
    (hsame : ∀ l, t.locate document = .ok l → u.get? l = t.get? l) :
    readDocument u document = readDocument t document := by
  have hfile : u.isFile document = t.isFile document := by
    rw [Tree.isFile, Tree.isFile, h.stat_eq hsame]
  rw [readDocument, readDocument, hfile]
  cases hisFile : t.isFile document with
  | error fault => rfl
  | ok b =>
    cases b with
    | false => rfl
    | true =>
      obtain ⟨l, content, hl, hcontent⟩ := Tree.isFile_eq_true_iff.1 hisFile
      have ht := Tree.read_eq_ok_iff.2 ⟨l, hl, hcontent⟩
      have hu := Tree.read_eq_ok_iff.2
        ⟨l, h.locate_eq_ok_iff.2 hl, (hsame l hl).trans hcontent⟩
      rw [ht, hu]

theorem value_run (host : Host) (id : Text) (document : Path) (w : Workspace) :
    ((run host id document).run w).1 =
      (ofTree w.tree id (host.absolute document)).map (·.source) := rfl

theorem value_run_of_writes {host : Host} {w : Workspace} {document : Path} {id content : Text}
    (a : Span.Parts id) (hcontent : Writes a.lines content)
    (hread : w.tree.read (host.absolute document) = .ok (Utf8.encode content)) :
    ((run host id document).run w).1 = .ok (sourceOfPayload id a.payload) := by
  rw [value_run, ofTree, readDocument_eq_ok hread]
  simp only [bind, Except.bind, Text.lines_unifyBreaks_of_writes hcontent, ofLines?_lines]
  rfl

/-- Two documents that share the arm of a type give the same source for it, which has no carriage
return, whatever stands around the arm and however the lines are broken. -/
theorem run_eq_of_same_arm {host host' : Host} {w w' : Workspace} {document document' : Path}
    {id content content' : Text} {lines above below : List Text} {s : Span}
    (hcontent : Writes lines content) (hs : Span.locate? lines id = some s)
    (habove : ∀ line ∈ above, Canvas.guard.capture? line ≠ some id)
    (hcontent' : Writes (above ++ s.slice lines ++ below) content')
    (hread : w.tree.read (host.absolute document) = .ok (Utf8.encode content))
    (hread' : w'.tree.read (host'.absolute document') = .ok (Utf8.encode content')) :
    ∃ source, ((run host id document).run w).1 = .ok source ∧
      ((run host' id document').run w').1 = .ok source ∧ '\r' ∉ source := by
  obtain ⟨a, rfl, rfl⟩ := Span.locate?_eq_some_iff.1 hs
  let b : Span.Parts id := ⟨above, a.opening, a.payload, a.closing, below, habove, a.opens,
    a.payload_open, a.closes⟩
  have hlines : above ++ a.span.slice a.lines ++ below = b.lines := by
    rw [a.slice_span]
    simp [Span.Parts.lines, b]
  rw [hlines] at hcontent'
  have hpayload : ∀ line ∈ a.payload, '\r' ∉ line := fun line hline ↦
    hcontent.not_mem line (by simp [Span.Parts.lines, hline])
  exact ⟨_, value_run_of_writes a hcontent hread, value_run_of_writes b hcontent' hread',
    not_mem_sourceOfPayload id hpayload⟩

theorem run_eq_of_same_arm_tile :
    let host : Host := .withYaml ⟨.root, []⟩ "/" []
    let document : Path := ⟨.root, ["a"]⟩
    let lines : List Text := ["<>", "\x7bel.type === 'tile' ? (", "<b/>", ") : ("]
    let below : List Text := ["null"]
    let s : Span := ⟨1, 3⟩
    let content : Text := "<>\r\n\x7bel.type === 'tile' ? (\n<b/>\r\n) : ("
    let content' : Text := "\x7bel.type === 'tile' ? (\r\n<b/>\n) : (\nnull"
    let w := Workspace.ofTree (Tree.empty.set ["a"] (.file (Utf8.encode content)))
    let w' := Workspace.ofTree (Tree.empty.set ["a"] (.file (Utf8.encode content')))
    Writes lines content ∧ Span.locate? lines "tile" = some s ∧
      Writes ([] ++ s.slice lines ++ below) content' ∧
      w.tree.read (host.absolute document) = .ok (Utf8.encode content) ∧
      w'.tree.read (host.absolute document) = .ok (Utf8.encode content') ∧
      ∃ source, ((run host "tile" document).run w).1 = .ok source ∧
        ((run host "tile" document).run w').1 = .ok source ∧ '\r' ∉ source := by
  intro host document lines below s content content' w w'
  have hcontent : Writes lines content :=
    .cons .carriageReturnLineFeed (by decide) (by decide) <|
      .cons .lineFeed (by decide) (by decide) <|
        .cons .carriageReturnLineFeed (by decide) (by decide) <| .last (by decide) (by decide)
  have hcontent' : Writes ([] ++ s.slice lines ++ below) content' :=
    .cons .carriageReturnLineFeed (by decide) (by decide) <|
      .cons .lineFeed (by decide) (by decide) <|
        .cons .lineFeed (by decide) (by decide) <| .last (by decide) (by decide)
  have hs : Span.locate? lines "tile" = some s := by decide
  have hread : w.tree.read (host.absolute document) = .ok (Utf8.encode content) :=
    Tree.read_eq_ok_iff.2 ⟨["a"], rfl, rfl⟩
  have hread' : w'.tree.read (host.absolute document) = .ok (Utf8.encode content') :=
    Tree.read_eq_ok_iff.2 ⟨["a"], rfl, rfl⟩
  exact ⟨hcontent, hs, hcontent', hread, hread',
    run_eq_of_same_arm hcontent hs (fun _ hline ↦ absurd hline List.not_mem_nil) hcontent' hread hread'⟩

end CanvasLift.Extraction
