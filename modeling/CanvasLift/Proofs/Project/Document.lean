import CanvasLift.Proofs.Project.Frame
import CanvasLift.Proofs.Project.Generation
import Mathlib.Control.Monad.Basic

namespace CanvasLift

variable {host : Host} {s : Settings} {given : Json} {id : Text} {t u v w : Tree} {l d : Location}
  {content : Bytes} {files : List Path}

namespace Generation

/-- A generation that comes to the manifest `m` and the tree `u` has written the component `id` to the
place `l`. -/
structure WritesAt (s : Settings) (given : Json) (m : Manifest) (u : Tree) (id : Text)
    (l : Location) : Prop where
  asked : Identifier.require given.text? = .ok id
  success : m.success = true
  located : u.locate (s.componentFile id) = .ok l

variable (host s given t) in
theorem get?_file (records : List Log.Record) (hfile : t.get? l = some (.file content)) :
    let generated := (run host s given).run ⟨t, records, none⟩
    (∀ id, WritesAt s given generated.1 generated.2.tree id l →
      generated.2.tree.get? l = some (.file (Utf8.encode (sourceFor host s id t).1))) ∧
    ((∀ id, ¬ WritesAt s given generated.1 generated.2.tree id l) →
      generated.2.tree.get? l = some (.file content)) := by
  intro generated
  constructor
  · intro id h
    obtain ⟨-, d, hplaced⟩ := exists_placed_of_success host s t records h.asked h.success
    have hplace := hplaced.file.symm.trans h.located
    rw [← Except.ok.inj hplace]
    exact hplaced.content
  · intro hnot
    have hold : ∀ {p : Path}, generated.2.tree.get? l = t.get? l ∨
        Tree.NewDirectory p t generated.2.tree l → generated.2.tree.get? l = some (.file content) := by
      intro p h
      obtain hsame | hnew := h
      · exact hsame.trans hfile
      · have habsent := hnew.absent
        rw [hfile] at habsent
        cases habsent
    obtain ⟨-, hgrown⟩ | ⟨raw, id, d, hraw, hid, hne, hplaced, -, hsuccess, -⟩ :=
      run_fails_or_places host s given t records
    · exact hold (hgrown l)
    · refine hold (hplaced.others l fun hl ↦ hnot id ⟨?_, hsuccess, ?_⟩)
      · exact Identifier.require_eq_ok_iff.2 ⟨raw, hraw, hid, hne⟩
      · rw [hl]
        exact hplaced.file

theorem WritesAt.below {records : List Log.Record}
    (h : WritesAt s given ((run host s given).run ⟨t, records, none⟩).1
      ((run host s given).run ⟨t, records, none⟩).2.tree id l)
    (hd : t.locate s.componentsDirectory = .ok d) : d <+: l := by
  obtain ⟨-, d', hplaced⟩ := exists_placed_of_success host s t records h.asked h.success
  have hlater := Tree.locate_ok_of_directoriesIn (directoriesIn_run host s given t records) hd
  obtain rfl := Except.ok.inj (hlater.symm.trans hplaced.directory)
  rw [← Except.ok.inj (hplaced.file.symm.trans h.located)]
  exact List.prefix_append _ _

end Generation

namespace Deletion

/-- What a deletion of the component takes away: its file, and all that lies below its directory. -/
def Removes (s : Settings) (id : Text) (t : Tree) (l : Location) : Prop :=
  t.locate (s.componentFile id) = .ok l ∨
    ∃ d, t.locate (componentDirectory s id) = .ok d ∧ d <+: l ∧ d ≠ l

/-- `w` has the file at `l` as it was, or, if that is a source file with references to the component
that was asked for, without these. -/
def Spares (s : Settings) (given : Json) (t w : Tree) (l : Location) (content : Bytes) : Prop :=
  w.get? l = some (.file content) ∨
    ∃ id names new, Identifier.require given.text? = .ok id ∧ SourceAt s t names l content ∧
      revisionOf id content = some new ∧ w.get? l = some (.file (Utf8.encode new))

theorem Spares.ne_none (h : Spares s given t w l content) : w.get? l ≠ none := by
  obtain h | ⟨id, names, new, -, -, -, h⟩ := h
  · simp [h]
  · simp [h]

theorem Removes.below (h : Removes s id t l) (hup : WideText.ofText id ≠ Path.up)
    (hd : t.locate s.componentsDirectory = .ok d) : d <+: l := by
  obtain hfile | ⟨m, hm, hpre, -⟩ := h
  · obtain ⟨rfl, -⟩ := Tree.locate_child (Settings.componentName_ne_up _) hd hfile
    exact List.prefix_append _ _
  · obtain ⟨rfl, -⟩ := Tree.locate_child hup hd hm
    exact (List.prefix_append _ _).trans hpre

theorem Revised.spares {plan : List (Path × Text)} (h : Revised s id files t u) (ht : t.WellFormed)
    (hid : Identifier.require given.text? = .ok id) (hfiles : sourceFiles s t = .ok files)
    (hplan : planned s id t files = .ok plan) (hfile : t.get? l = some (.file content)) :
    Spares s given t u l content := by
  obtain ⟨found, hfound, rfl⟩ := exists_found ht hfiles
  obtain hsame | ⟨old, new, hrev, hnew⟩ := h.partly l
  · exact .inl (hsame.trans hfile)
  · obtain ⟨hrevised, names, hat, -⟩ := (revision_iff ht hfound hplan).1 hrev
    have hcontent := hfile.symm.trans hat.content
    cases hcontent
    exact .inr ⟨id, names, new, hid, hat, hrevised, hnew⟩

theorem Stages.get?_eq_none_of_removes {file directory : Bool}
    (h : Stages s id files t u v w file directory) (ht : t.WellFormed)
    (hfile : t.get? l = some (.file content)) (hremoves : Removes s id t l) : w.get? l = none := by
  obtain hl | ⟨d, hd, hpre, hne⟩ := hremoves
  · exact h.get?_eq_none_of_isFile (Tree.isFile_eq_true_iff.2 ⟨l, content, hl, hfile⟩) hl
  · have hdir : t.get? d = some .directory := by
      by_contra hnot
      rw [ht.get?_of_prefix hnot hpre hne.symm] at hfile
      cases hfile
    refine h.get?_eq_none_of_isDirectory ht ?_ hd hdir hpre
    rintro rfl
    cases hfile

theorem Stages.get?_of_not_removes {file directory : Bool}
    (h : Stages s id files t u v w file directory) (ht : t.WellFormed)
    (hfile : t.get? l = some (.file content)) (hnot : ¬ Removes s id t l) :
    w.get? l = u.get? l := by
  obtain ⟨hown, hbelow⟩ := not_or.1 hnot
  by_cases hd : t.locate (componentDirectory s id) = .ok l
  · -- A file in the place of the directory is left alone.
    obtain rfl : directory = false := by
      rw [Bool.eq_false_iff, Ne, h.isDirectory_iff ht, Tree.isDirectory_eq_true_iff]
      rintro ⟨m, hm, hdir⟩
      obtain rfl := Except.ok.inj (hd.symm.trans hm)
      rw [hfile] at hdir
      cases hdir
    have hsame : w = v := h.clearedDirectory
    rw [hsame, h.get?_of_clearedFile ht hown]
  · refine h.get?_of_not_ownPlace ht ?_
    rintro (hl | ⟨d, hm, hpre⟩)
    · exact hown hl
    · refine hbelow ⟨d, hm, hpre, ?_⟩
      rintro rfl
      exact hd hm

variable (s given t) in
theorem get?_file (records : List Log.Record) (ht : t.WellFormed)
    (hfile : t.get? l = some (.file content)) :
    let done := (run s given).run ⟨t, records, none⟩
    ((∃ deleted updatedFiles, done.1 = .done deleted updatedFiles) ∧
        (∃ id, Identifier.require given.text? = .ok id ∧ Removes s id t l) →
      done.2.tree.get? l = none) ∧
    (¬ ((∃ deleted updatedFiles, done.1 = .done deleted updatedFiles) ∧
        ∃ id, Identifier.require given.text? = .ok id ∧ Removes s id t l) →
      Spares s given t done.2.tree l content) := by
  intro done
  have hends : Ends s given t done.1 done.2.tree := ends_run s given t records
  cases hreport : done.1 with
  | failed error =>
    rw [hreport] at hends
    generalize done.2.tree = w at hends ⊢
    refine ⟨fun h ↦ ?_, fun _ ↦ ?_⟩
    · obtain ⟨⟨_, _, hdone⟩, -⟩ := h
      cases hdone
    · cases hends with
      | unusable hid => exact .inl hfile
      | unread hid hread => exact .inl hfile
      | stuck hid hfiles hplan hstat hu => exact hu.spares ht hid hfiles hplan hfile
  | done deleted updatedFiles =>
    obtain ⟨id, files, plan, e, u, v, file, directory, hid, hfiles, hplan, -, h, -⟩ :=
      exists_stages_of_done hreport
    refine ⟨fun hremoved ↦ ?_, fun hnot ↦ ?_⟩
    · obtain ⟨-, id', hid', hremoves⟩ := hremoved
      obtain rfl := Except.ok.inj (hid.symm.trans hid')
      exact h.get?_eq_none_of_removes ht hfile hremoves
    · have hspared := h.revised.spares ht hid hfiles hplan hfile
      rw [Spares, ← h.get?_of_not_removes ht hfile fun hremoves ↦
        hnot ⟨⟨_, _, rfl⟩, id, hid, hremoves⟩] at hspared
      exact hspared

end Deletion

/-- A generation writes over the canvas document exactly where it succeeds and writes its component to
the place of the document. A deletion removes the document exactly where it succeeds and takes that
place away with the component, and otherwise it only cuts references to the component out of it.
Neither can be outside the components directory. -/
theorem document_kept_iff (host : Host) (s : Settings) (given : Json) (t : Tree)
    (records : List Log.Record) (ht : t.WellFormed)
    (hread : t.read (host.absolute s.sourceDocument) = .ok content) :
    let generated := (Generation.run host s given).run ⟨t, records, none⟩
    let done := (Deletion.run s given).run ⟨t, records, none⟩
    ∃ l, t.locate (host.absolute s.sourceDocument) = .ok l ∧ t.get? l = some (.file content) ∧
      (∀ id, Generation.WritesAt s given generated.1 generated.2.tree id l →
        generated.2.tree.get? l =
          some (.file (Utf8.encode (Generation.sourceFor host s id t).1))) ∧
      ((∀ id, ¬ Generation.WritesAt s given generated.1 generated.2.tree id l) →
        generated.2.tree.get? l = some (.file content)) ∧
      (done.2.tree.get? l = none ↔
        (∃ deleted updatedFiles, done.1 = .done deleted updatedFiles) ∧
          ∃ id, Identifier.require given.text? = .ok id ∧ Deletion.Removes s id t l) ∧
      (done.2.tree.get? l ≠ none → Deletion.Spares s given t done.2.tree l content) ∧
      ∀ d, t.locate s.componentsDirectory = .ok d → ¬ d <+: l →
        generated.2.tree.get? l = some (.file content) ∧
          Deletion.Spares s given t done.2.tree l content := by
  intro generated done
  obtain ⟨l, hl, hfile⟩ := Tree.read_eq_ok_iff.1 hread
  obtain ⟨hwritten, hunwritten⟩ := Generation.get?_file host s given t records hfile
  obtain ⟨hremoved, hspared⟩ := Deletion.get?_file s given t records ht hfile
  refine ⟨l, hl, hfile, hwritten, hunwritten, ⟨fun hnone ↦ ?_, hremoved⟩, fun hsome ↦ ?_, ?_⟩
  · by_contra hnot
    exact (hspared hnot).ne_none hnone
  · exact hspared (mt hremoved hsome)
  · intro d hd hapart
    refine ⟨hunwritten fun id hwrites ↦ hapart (hwrites.below hd), hspared ?_⟩
    rintro ⟨-, id, hid, hremoves⟩
    exact hapart (hremoves.below (Identifier.ne_up_of_require hid) hd)

def documentWith (settings document : Text) : Tree :=
  (((Tree.empty.set [Settings.fileName] (.file (Utf8.encode settings))).set ["src"]
    .directory).set ["src", "pages"] .directory).set ["src", "pages", "CanvasPage.tsx"]
      (.file (Utf8.encode document))

def pageWithUse : Text :=
  "import C from \"../components/c\";\n\x7bel.type === 'c' ? (\n<b/>\n) : (\n<C />\n)\x7d\n"

theorem document_kept_iff_of_use :
    let host : Host := .withYaml ⟨.root, []⟩ "/" []
    let s := Settings.defaults ⟨.root, []⟩
    let given := Json.string (WideText.ofText ['c'])
    let t := documentWith [] pageWithUse
    let content := Utf8.encode pageWithUse
    let generated := (Generation.run host s given).run ⟨t, [], none⟩
    let done := (Deletion.run s given).run ⟨t, [], none⟩
    let without : Text := "\x7bel.type === 'c' ? (\n<b/>\n) : (\n\x7bnull\x7d\n)\x7d\n"
    (t.WellFormed ∧ t.read (host.absolute s.sourceDocument) = .ok content ∧
        generated.1.origin = some (WideText.ofText "extracted") ∧
        done.2.tree.read (host.absolute s.sourceDocument) = .ok (Utf8.encode without)) ∧
      ∃ l, t.locate (host.absolute s.sourceDocument) = .ok l ∧ t.get? l = some (.file content) ∧
        (∀ id, Generation.WritesAt s given generated.1 generated.2.tree id l →
          generated.2.tree.get? l =
            some (.file (Utf8.encode (Generation.sourceFor host s id t).1))) ∧
        ((∀ id, ¬ Generation.WritesAt s given generated.1 generated.2.tree id l) →
          generated.2.tree.get? l = some (.file content)) ∧
        (done.2.tree.get? l = none ↔
          (∃ deleted updatedFiles, done.1 = .done deleted updatedFiles) ∧
            ∃ id, Identifier.require given.text? = .ok id ∧ Deletion.Removes s id t l) ∧
        (done.2.tree.get? l ≠ none → Deletion.Spares s given t done.2.tree l content) ∧
        ∀ d, t.locate s.componentsDirectory = .ok d → ¬ d <+: l →
          generated.2.tree.get? l = some (.file content) ∧
            Deletion.Spares s given t done.2.tree l content := by
  intro host s given t content generated done without
  have ht : t.WellFormed := by decide
  have hread : t.read (host.absolute s.sourceDocument) = .ok content := by decide +kernel
  have horigin : generated.1.origin = some (WideText.ofText "extracted") := by decide +kernel
  have hcut : done.2.tree.read (host.absolute s.sourceDocument) = .ok (Utf8.encode without) := by
    decide +kernel
  exact ⟨⟨ht, hread, horigin, hcut⟩, document_kept_iff host s given t [] ht hread⟩

theorem exists_eq_ok_of_any {α β : Type} {r : Except α β} {p : β → Prop} [DecidablePred p]
    (h : (r.toOption.any fun b ↦ decide (p b)) = true) : ∃ b, r = .ok b ∧ p b := by
  cases r with
  | error a => cases h
  | ok b => exact ⟨b, rfl, of_decide_eq_true h⟩

/-- With the components next to the document, the component that is named like it takes its place, and
with the components around its directory, the component that is named like that takes it away. -/
theorem document_destroyed :
    let host : Host := .withYaml ⟨.root, []⟩ "/" []
    let page : Location := ["src", "pages", "CanvasPage.tsx"]
    let beside := documentWith "components_dir: src/pages" pageWithUse
    let around := documentWith "components_dir: src" pageWithUse
    (∃ s, Settings.load host beside ⟨.root, []⟩ = .ok s ∧
      beside.locate (host.absolute s.sourceDocument) = .ok page ∧
      beside.get? page = some (.file (Utf8.encode pageWithUse)) ∧
      let generated := (Generation.run host s (.string (WideText.ofText "CanvasPage"))).run
        ⟨beside, [], none⟩
      generated.1.success = true ∧ generated.2.tree.get? page =
        some (.file (Utf8.encode (Component.Template.fallback "CanvasPage"))) ∧
      generated.2.tree.get? page ≠ beside.get? page) ∧
    ∃ s, Settings.load host around ⟨.root, []⟩ = .ok s ∧
      around.locate (host.absolute s.sourceDocument) = .ok page ∧
      around.get? page = some (.file (Utf8.encode pageWithUse)) ∧
      let done := (Deletion.run s (.string (WideText.ofText "pages"))).run ⟨around, [], none⟩
      done.1 = .done true [] ∧ done.2.tree.get? page = none := by
  refine ⟨exists_eq_ok_of_any ?_, exists_eq_ok_of_any ?_⟩
  · decide +kernel
  · decide +kernel

end CanvasLift
