import CanvasLift.Proofs.Canvas.Markup
import CanvasLift.Proofs.Component.Wrapper
import CanvasLift.Proofs.Project.Check
import CanvasLift.Proofs.Project.Extraction

namespace CanvasLift

open Component Generation

namespace Extraction

/-- The body carries the marker of a component, something in it as it stands in the source has the form
of a placeholder, and nothing in the source shows a full interface. -/
def ResemblesPlaceholder (e : Extraction) : Prop :=
  "data-component-id" <:+: e.markup.body ∧
    (∃ p ∈ Completeness.stubs, p.occursIn (embedded e.markup.body) = true) ∧
    ∀ p ∈ Completeness.indicators, p.occursIn e.source = false

variable {t : Tree} {id : Text} {document : Path} {e : Extraction}

theorem classify_eq_stub_iff (h : ofTree t id document = .ok e) :
    Completeness.classify e.source = .stub ↔ e.ResemblesPlaceholder := by
  obtain ⟨payload, -, hmarkup, hsource⟩ := exists_payload_of_ofTree h
  have hprops : ∀ {c : Char}, Canvas.isNameChar c = false →
      ∀ prop ∈ (Canvas.Markup.ofBlock (Text.unlines payload)).props, c ∉ prop := by
    intro c hc prop hprop hmem
    rw [Canvas.isNameChar_of_mem_props hprop c hmem] at hc
    cases hc
  rw [ResemblesPlaceholder, hmarkup, hsource]
  exact Completeness.classify_source_eq_stub_iff (hprops (by decide)) (hprops (by decide))
    (not_mem_glyphs_ofBody (by decide) _)

theorem ResemblesPlaceholder.body (h : ofTree t id document = .ok e) (hresembles : e.ResemblesPlaceholder) :
    "return" <:+: e.markup.body ∧ ¬ "className=" <:+: e.markup.body := by
  obtain ⟨-, ⟨p, hp, hstub⟩, hnone⟩ := hresembles
  refine ⟨?_, fun hclass ↦ ?_⟩
  · rw [← infix_embedded_iff (by decide) (by decide)]
    exact Completeness.return_infix_of_stub hp hstub
  · obtain ⟨payload, -, hmarkup, hsource⟩ := exists_payload_of_ofTree h
    have habsent := hnone Completeness.wideClasses (by simp [Completeness.indicators])
    rw [hmarkup] at hclass
    rw [hsource, sourceOfPayload, Completeness.wideClasses_occursIn_source hclass] at habsent
    cases habsent

theorem not_mem_source (h : ofTree t id document = .ok e) : '\r' ∉ e.source := by
  obtain ⟨payload, hpayload, -, hsource⟩ := exists_payload_of_ofTree h
  rw [hsource]
  exact not_mem_sourceOfPayload id hpayload

end Extraction

namespace Command.Run

/-- The check reports a component that was extracted exactly where the body that the canvas has for
it resembles a placeholder. -/
theorem check_lists_extracted_iff (host : Host) (s : Settings) {given : Json} (t : Tree)
    (records : List Log.Record) {id : Text} (hid : Identifier.require given.text? = .ok id) :
    (∀ (document : Path) (name : Text) (e : Extraction),
      Extraction.ofTree t name document = .ok e →
        (Completeness.classify e.source = .stub ↔ e.ResemblesPlaceholder) ∧
        (e.ResemblesPlaceholder →
          "return" <:+: e.markup.body ∧ ¬ "className=" <:+: e.markup.body)) ∧
    let m := ((Generation.run host s given).run ⟨t, records, none⟩).1
    let u := ((Generation.run host s given).run ⟨t, records, none⟩).2.tree
    m.success = true → m.origin = some (.ofText Origin.extracted.name) →
      ∃ e, Extraction.ofTree t id (host.absolute s.sourceDocument) = .ok e ∧
        u.read (s.componentFile id) = .ok (Utf8.encode e.source) ∧
        ((check s u (some id)).Lists s (s.componentFile id) ↔ e.ResemblesPlaceholder) ∧
        ((check s u (some id)).ending = .ok 0 ↔ ¬ e.ResemblesPlaceholder) ∧
        ∃ paths, Check.files s u none = .ok paths ∧ s.componentFile id ∈ paths ∧
          ((∃ r, Check.run s u none = .ok r) ↔
            ∀ p ∈ paths, ∃ verdict, Check.verdictOf u p = .ok verdict) ∧
          ∀ r, Check.run s u none = .ok r →
            (s.componentFile id ∈ r.stubs ↔ e.ResemblesPlaceholder) ∧
            (e.ResemblesPlaceholder → (check s u none).Lists s (s.componentFile id)) := by
  have hallowed := Identifier.isAllowed_of_require hid
  obtain ⟨_, _, _, hne⟩ := Identifier.require_eq_ok_iff.1 hid
  refine ⟨fun document name e h ↦
    ⟨Extraction.classify_eq_stub_iff h, Extraction.ResemblesPlaceholder.body h⟩,
    fun hsuccess horigin ↦ ?_⟩
  obtain ⟨e, he, d, hplaced⟩ := Generation.exists_placed_of_extracted host s t records hid
    hsuccess horigin
  have hread := Tree.read_eq_ok_iff.2 ⟨_, hplaced.file, hplaced.content⟩
  exact ⟨e, he, hread, check_lists_iff_of_placed hallowed hne hplaced
    (Extraction.not_mem_source he) (Extraction.classify_eq_stub_iff he)⟩

def withCanvas (content : Text) : Tree :=
  (noComponents.set ["src", "pages"] .directory).set ["src", "pages", "CanvasPage.tsx"]
    (.file (Utf8.encode content))

theorem check_lists_extracted_of_tile :
    let host : Host := .withYaml ⟨.root, []⟩ [] []
    let s := Settings.defaults ⟨.root, []⟩
    let id : Text := "tile"
    let given := Json.string (WideText.ofText id)
    let t := withCanvas "\x7bel.type === 'tile' ? (\n  <p data-component-id=\"tile\">row</p>\n) : (\n"
    let done := (Generation.run host s given).run ⟨t, [], none⟩
    (Identifier.require given.text? = .ok id ∧ done.1.success = true ∧
        done.1.origin = some (.ofText Origin.extracted.name)) ∧
      ∃ e, Extraction.ofTree t id (host.absolute s.sourceDocument) = .ok e ∧
        ¬ e.ResemblesPlaceholder ∧ (check s done.2.tree (some id)).ending = .ok 0 := by
  intro host s id given t done
  have hid : Identifier.require given.text? = .ok id := by decide
  have hdone : done.1 = Generation.manifest s id .extracted := by decide +kernel
  have hsuccess : done.1.success = true := by
    rw [hdone]
    rfl
  have horigin : done.1.origin = some (.ofText Origin.extracted.name) := by
    rw [hdone]
    rfl
  have hverdict : (Extraction.ofTree t id (host.absolute s.sourceDocument)).map
      (fun e ↦ Completeness.classify e.source) = .ok .complete := by decide +kernel
  obtain ⟨hclassify, hchecked⟩ := check_lists_extracted_iff host s t [] hid
  obtain ⟨e, he, -, -, hending, -⟩ := hchecked hsuccess horigin
  rw [he] at hverdict
  have hcomplete : Completeness.classify e.source = .complete := Except.ok.inj hverdict
  have hnone : ¬ e.ResemblesPlaceholder := by
    rw [← (hclassify _ _ e he).1, hcomplete]
    decide
  exact ⟨⟨hid, hsuccess, horigin⟩, e, he, hnone, hending.2 hnone⟩

/-- The body of this component renders its rows with a callback, which looks like a placeholder. -/
theorem check_fails_extracted :
    let host : Host := .withYaml ⟨.root, []⟩ [] []
    let s := Settings.defaults ⟨.root, []⟩
    let id : Text := "tile"
    let given := Json.string (WideText.ofText id)
    let t := withCanvas ("\x7bel.type === \"tile\" ? (\n" ++
      "  <ul data-component-id=\"tile\">\x7brows.map(() => \x7b\n    return <div>row</div>;\n" ++
      "  \x7d)\x7d</ul>\n) : (\n  null\n)\x7d\n")
    let done := (Generation.run host s given).run ⟨t, [], none⟩
    (Extraction.ofTree t id (host.absolute s.sourceDocument)).map
        (fun e ↦ Completeness.classify e.source) = .ok .stub ∧
      done.1.origin = some (.ofText Origin.extracted.name) ∧
      (check s done.2.tree none).ending = .ok 1 := by
  decide +kernel

end Command.Run

end CanvasLift
