import CanvasLift.Proofs.Files.Limits
import CanvasLift.Proofs.Project.Revision

namespace CanvasLift.Deletion

open Component.References (strip cutOut strip_eq_cutOut_iff)

variable {s : Settings} {id : Text} {files : List Path} {t u v : Tree}

theorem yields_removeIf_error {test : Tree → Path → Except FileFault Bool} {p : Path}
    {fault : FileFault} (h : test t p = .error fault) :
    (removeIf test p).Yields t (.error (.file fault)) t := by
  have hlook := yields_look_file (test · p) h
  exact hlook.bind_error

/-- `u` is `t` without the place that `p` leads to, or `t` itself. -/
def Without (p : Path) (t u : Tree) : Prop := u = t ∨ ∃ l, t.locate p = .ok l ∧ u = t.remove l

theorem Without.get?_eq_some {p : Path} (h : Without p t u) {l : Location} {e : Entry}
    (hl : u.get? l = some e) : t.get? l = some e := by
  obtain rfl | ⟨m, -, rfl⟩ := h
  · exact hl
  · exact Tree.get?_of_get?_remove hl

/-- `u` is `t` without the place that `p` leads to, if anything was to be removed, and else `t`. -/
def Cleared (p : Path) (t : Tree) (found : Bool) (u : Tree) : Prop :=
  if found then ∃ l, t.locate p = .ok l ∧ u = t.remove l else u = t

theorem Cleared.without {p : Path} {found : Bool} (h : Cleared p t found u) : Without p t u := by
  cases found with
  | false => exact .inl h
  | true => exact .inr h

theorem yields_removeIf_ok {test : Tree → Path → Except FileFault Bool} {p : Path} {b : Bool}
    (h : test t p = .ok b) (hfound : b = true → ∃ l, t.locate p = .ok l) :
    ∃ u, (removeIf test p).Yields t (.ok b) u ∧ Cleared p t b u := by
  have hlook := yields_look_file (test · p) h
  cases b with
  | false => exact ⟨t, Attempt.Yields.bind hlook (Attempt.yields_pure _ t), rfl⟩
  | true =>
    obtain ⟨l, hl⟩ := hfound rfl
    refine ⟨t.remove l, Attempt.Yields.bind hlook ?_, l, hl, rfl⟩
    have hremove : ((t.locate p).map t.remove).mapError Fault.file = .ok (t.remove l) := by
      rw [hl]
      rfl
    exact (Attempt.yields_change_ok hremove).bind (Attempt.yields_pure _ _)

theorem yields_remove_of_sourceFiles_error {fault : FileFault}
    (h : sourceFiles s t = .error fault) :
    (remove s id).Yields t (.error (.file fault)) t := by
  have hlook := yields_look_file (sourceFiles s) h
  exact hlook.bind_error

theorem yields_remove_of_planned_error {fault : FileFault} (hfiles : sourceFiles s t = .ok files)
    (h : planned s id t files = .error fault) :
    (remove s id).Yields t (.error (.file fault)) t := by
  have hlook := yields_look_file (sourceFiles s) hfiles
  have hplan := yields_revisions s id t files
  rw [h] at hplan
  exact Attempt.Yields.bind hlook hplan.bind_error

theorem stat_componentFile_of_componentDirectory (hin : Tree.DirectoriesIn t u)
    {fault : FileFault} (h : t.stat (componentDirectory s id) = .error fault) :
    u.stat (s.componentFile id) = .error (.refused .nameTooLong (s.componentFile id)) := by
  rw [Settings.componentFile, WideText.ofText_append]
  exact Tree.stat_error_child_append hin (Settings.append_componentEnding_ne_up _) (by decide) h

theorem yields_remove_of_stat_error {fault : FileFault} {plan : List (Path × Text)}
    (hfiles : sourceFiles s t = .ok files) (hplan : planned s id t files = .ok plan)
    (hstat : t.stat (s.componentFile id) = .error fault) :
    ∃ u, (remove s id).Yields t (.error (.file fault)) u ∧ Revised s id files t u := by
  have hlook := yields_look_file (sourceFiles s) hfiles
  have hrevisions := yields_revisions s id t files
  rw [hplan] at hrevisions
  obtain ⟨u, happly, hu⟩ := yields_applyRevisions_of_planned hplan
  have hfile : u.isFile (s.componentFile id) = .error fault := by
    rw [Tree.isFile_eq_error_iff, ← Tree.stat_error_sameKinds hu.partly.sameKinds]
    exact hstat
  refine ⟨u, Attempt.Yields.bind hlook (Attempt.Yields.bind hrevisions (happly.bind ?_)), hu⟩
  exact (yields_removeIf_error hfile).bind_error

/-- A removal in stages: the files that refer to the component are revised in `t`, which gives `u`,
its own file is removed from that, which gives `v`, and its directory from that. -/
structure Stages (s : Settings) (id : Text) (files : List Path) (t u v w : Tree)
    (file directory : Bool) : Prop where
  revised : Revised s id files t u
  isFile : u.isFile (s.componentFile id) = .ok file
  clearedFile : Cleared (s.componentFile id) u file v
  isDirectory : v.isDirectory (componentDirectory s id) = .ok directory
  clearedDirectory : Cleared (componentDirectory s id) v directory w

theorem yields_remove_of_stat_ok {plan : List (Path × Text)} {e : Option Entry}
    (hfiles : sourceFiles s t = .ok files) (hplan : planned s id t files = .ok plan)
    (hstat : t.stat (s.componentFile id) = .ok e) :
    ∃ u v w file directory, Stages s id files t u v w file directory ∧
      (remove s id).Yields t
        (.ok (.done (file || directory) (plan.map fun e ↦ s.relative e.1))) w := by
  have hlook := yields_look_file (sourceFiles s) hfiles
  have hrevisions := yields_revisions s id t files
  rw [hplan] at hrevisions
  obtain ⟨u, happly, hu⟩ := yields_applyRevisions_of_planned hplan
  have hclear : ∀ fault, u.stat (s.componentFile id) ≠ .error fault := by
    intro fault h
    rw [← Tree.stat_error_sameKinds hu.partly.sameKinds, hstat] at h
    cases h
  obtain ⟨file, hfile⟩ : ∃ b, u.isFile (s.componentFile id) = .ok b := by
    cases h : u.isFile (s.componentFile id) with
    | ok b => exact ⟨b, rfl⟩
    | error fault => exact absurd (Tree.isFile_eq_error_iff.1 h) (hclear fault)
  obtain ⟨v, hv, huv⟩ := yields_removeIf_ok hfile (by
    rintro rfl
    obtain ⟨l, -, hl, -⟩ := Tree.isFile_eq_true_iff.1 hfile
    exact ⟨l, hl⟩)
  have hin : Tree.DirectoriesIn v u := fun _ h ↦ huv.without.get?_eq_some h
  obtain ⟨directory, hdirectory⟩ : ∃ b, v.isDirectory (componentDirectory s id) = .ok b := by
    cases h : v.isDirectory (componentDirectory s id) with
    | ok b => exact ⟨b, rfl⟩
    | error fault =>
      have hdir := Tree.isDirectory_eq_error_iff.1 h
      exact absurd (stat_componentFile_of_componentDirectory hin hdir) (hclear _)
  obtain ⟨w, hw, hvw⟩ := yields_removeIf_ok hdirectory (by
    rintro rfl
    obtain ⟨l, hl, -⟩ := Tree.isDirectory_eq_true_iff.1 hdirectory
    exact ⟨l, hl⟩)
  refine ⟨u, v, w, file, directory, ⟨hu, hfile, huv, hdirectory, hvw⟩, ?_⟩
  refine Attempt.Yields.bind hlook (Attempt.Yields.bind hrevisions (happly.bind ?_))
  exact hv.bind (hw.bind ((Attempt.yields_note _ _ _ w).bind (Attempt.yields_pure _ w)))

theorem exists_yields_remove (s : Settings) (id : Text) (t : Tree) :
    ∃ r u, (remove s id).Yields t r u ∧
      ((∃ fault, r = .error fault) ∨ ∃ deleted updated, r = .ok (.done deleted updated)) := by
  cases hfiles : sourceFiles s t with
  | error fault => exact ⟨_, t, yields_remove_of_sourceFiles_error hfiles, .inl ⟨_, rfl⟩⟩
  | ok files =>
    cases hplan : planned s id t files with
    | error fault => exact ⟨_, t, yields_remove_of_planned_error hfiles hplan, .inl ⟨_, rfl⟩⟩
    | ok plan =>
      cases hstat : t.stat (s.componentFile id) with
      | error fault =>
        obtain ⟨u, hremove, -⟩ := yields_remove_of_stat_error hfiles hplan hstat
        exact ⟨_, u, hremove, .inl ⟨_, rfl⟩⟩
      | ok e =>
        obtain ⟨_, _, w, _, _, -, hremove⟩ := yields_remove_of_stat_ok hfiles hplan hstat
        exact ⟨_, w, hremove, .inr ⟨_, _, rfl⟩⟩

theorem yields_run_of_error {given : Json} {fault : Identifier.Fault} (s : Settings) (t : Tree)
    (h : Identifier.require given.text? = .error fault) :
    (run s given).Yields t (.failed (some fault.message)) t := by
  rw [run, h]
  exact Work.yields_pure _ t

def reported : Except Fault Deletion → Deletion
  | .ok report => report
  | .error fault => .failed (some fault.message)

theorem yields_run_of_ok {given : Json} {r : Except Fault Deletion}
    (h : Identifier.require given.text? = .ok id) (hr : (remove s id).Yields t r u) :
    (run s given).Yields t (reported r) u := by
  rw [run, h]
  refine Work.Yields.bind hr ?_
  cases r with
  | ok report => exact Work.yields_pure _ u
  | error fault => exact (Work.yields_note _ _ _ u).bind (Work.yields_pure _ u)

theorem exists_yields_run (s : Settings) (given : Json) (t : Tree) :
    ∃ report u, (run s given).Yields t report u := by
  cases hid : Identifier.require given.text? with
  | error fault => exact ⟨_, t, yields_run_of_error s t hid⟩
  | ok id =>
    obtain ⟨r, u, hr, -⟩ := exists_yields_remove s id t
    exact ⟨_, u, yields_run_of_ok hid hr⟩

/-- How a deletion ends, with its report and the tree it leaves: nothing is written before all files
are read, and after that only the name of the component can stop it. -/
inductive Ends (s : Settings) (given : Json) (t : Tree) : Deletion → Tree → Prop
  | unusable {fault : Identifier.Fault} (hid : Identifier.require given.text? = .error fault) :
      Ends s given t (.failed (some fault.message)) t
  | unread {id : Text} {fault : FileFault} (hid : Identifier.require given.text? = .ok id)
      (hread : sourceFiles s t = .error fault ∨
        ∃ files, sourceFiles s t = .ok files ∧ planned s id t files = .error fault) :
      Ends s given t (.failed (some fault.message)) t
  | stuck {id : Text} {files : List Path} {plan : List (Path × Text)} {fault : FileFault}
      {u : Tree} (hid : Identifier.require given.text? = .ok id)
      (hfiles : sourceFiles s t = .ok files) (hplan : planned s id t files = .ok plan)
      (hstat : t.stat (s.componentFile id) = .error fault) (hu : Revised s id files t u) :
      Ends s given t (.failed (some fault.message)) u
  | done {id : Text} {files : List Path} {plan : List (Path × Text)} {e : Option Entry}
      {deleted : Bool} {u v w : Tree} (hid : Identifier.require given.text? = .ok id)
      (hfiles : sourceFiles s t = .ok files) (hplan : planned s id t files = .ok plan)
      (hstat : t.stat (s.componentFile id) = .ok e) (hu : Revised s id files t u)
      (hv : Without (s.componentFile id) u v) (hw : Without (componentDirectory s id) v w) :
      Ends s given t (.done deleted (plan.map fun e ↦ s.relative e.1)) w

theorem ends_of_yields {given : Json} {report : Deletion} (records : List Log.Record)
    (h : (run s given).Yields t report u) (hends : Ends s given t report u) :
    Ends s given t ((run s given).run ⟨t, records, none⟩).1
      ((run s given).run ⟨t, records, none⟩).2.tree := by
  rw [h.value, h.tree]
  exact hends

theorem ends_run (s : Settings) (given : Json) (t : Tree) (records : List Log.Record) :
    Ends s given t ((run s given).run ⟨t, records, none⟩).1
      ((run s given).run ⟨t, records, none⟩).2.tree := by
  cases hid : Identifier.require given.text? with
  | error fault => exact ends_of_yields records (yields_run_of_error s t hid) (.unusable hid)
  | ok id =>
    cases hfiles : sourceFiles s t with
    | error fault =>
      have hrun := yields_run_of_ok hid (yields_remove_of_sourceFiles_error hfiles)
      exact ends_of_yields records hrun (.unread hid (.inl hfiles))
    | ok files =>
      cases hplan : planned s id t files with
      | error fault =>
        have hrun := yields_run_of_ok hid (yields_remove_of_planned_error hfiles hplan)
        exact ends_of_yields records hrun (.unread hid (.inr ⟨files, hfiles, hplan⟩))
      | ok plan =>
        cases hstat : t.stat (s.componentFile id) with
        | error fault =>
          obtain ⟨u, hremove, hu⟩ := yields_remove_of_stat_error hfiles hplan hstat
          have hrun := yields_run_of_ok hid hremove
          exact ends_of_yields records hrun (.stuck hid hfiles hplan hstat hu)
        | ok e =>
          obtain ⟨u, v, w, file, directory, hstages, hremove⟩ :=
            yields_remove_of_stat_ok hfiles hplan hstat
          have hrun := yields_run_of_ok hid hremove
          exact ends_of_yields records hrun (.done hid hfiles hplan hstat hstages.revised
            hstages.clearedFile.without hstages.clearedDirectory.without)

theorem exists_stages_of_done {given : Json} {records : List Log.Record} {deleted : Bool}
    {updatedFiles : List WideText}
    (h : ((run s given).run ⟨t, records, none⟩).1 = .done deleted updatedFiles) :
    ∃ id files plan e u v file directory, Identifier.require given.text? = .ok id ∧
      sourceFiles s t = .ok files ∧ planned s id t files = .ok plan ∧
      t.stat (s.componentFile id) = .ok e ∧
      Stages s id files t u v ((run s given).run ⟨t, records, none⟩).2.tree file directory ∧
      deleted = (file || directory) ∧ updatedFiles = plan.map fun e ↦ s.relative e.1 := by
  have hends := ends_run s given t records
  rw [h] at hends
  generalize htree : ((run s given).run ⟨t, records, none⟩).2.tree = w at hends ⊢
  cases hends with
  | done hid hfiles hplan hstat =>
    obtain ⟨u, v, w', file, directory, hstages, hremove⟩ :=
      yields_remove_of_stat_ok hfiles hplan hstat
    have hrun := yields_run_of_ok hid hremove
    rw [hrun.tree] at htree
    rw [hrun.value] at h
    subst htree
    cases h
    exact ⟨_, _, _, _, u, v, file, directory, hid, hfiles, hplan, hstat, hstages, rfl, rfl⟩

/-- A deletion fails after it has changed the tree exactly where some file refers to the component,
all files can be read, and the path of the component's own file is too long to be looked up. -/
theorem failed_changed_iff (s : Settings) (given : Json) (t : Tree) (records : List Log.Record) :
    let before : Workspace := ⟨t, records, none⟩
    let report := ((run s given).run before).1
    let after := ((run s given).run before).2.tree
    ((∃ e, report = .failed e) ∧ ∃ l, after.get? l ≠ t.get? l) ↔
      ∃ id files, Identifier.require given.text? = .ok id ∧ sourceFiles s t = .ok files ∧
        (∀ p ∈ files, isOwn s id p = true ∨ ∃ bytes, t.read p = .ok bytes) ∧
        (∃ l old new, Revision s id files t l old new) ∧
        t.stat (s.componentFile id) = .error (.refused .nameTooLong (s.componentFile id)) := by
  intro before report after
  have hends : Ends s given t report after := ends_run s given t records
  clear_value report after
  constructor
  · intro h
    obtain ⟨⟨e, hfailed⟩, l, hchanged⟩ := h
    cases hends with
    | unusable hid => exact absurd rfl hchanged
    | unread hid hread => exact absurd rfl hchanged
    | stuck hid hfiles hplan hstat hu =>
      obtain hsame | ⟨old, new, hrev, -⟩ := hu.partly l
      · exact absurd hsame hchanged
      · obtain ⟨rfl, -⟩ := Tree.stat_eq_error_iff.1 hstat
        exact ⟨_, _, hid, hfiles, exists_planned_iff.1 ⟨_, hplan⟩, ⟨l, old, new, hrev⟩, hstat⟩
    | done => cases hfailed
  · intro h
    obtain ⟨id, files, hid, hfiles, hread, ⟨l, old, new, hrev⟩, hstat⟩ := h
    obtain ⟨plan, hplan⟩ := exists_planned_iff.2 hread
    cases hends with
    | unusable hid' => rw [hid] at hid'; cases hid'
    | unread hid' hread' =>
      obtain rfl := Except.ok.inj (hid.symm.trans hid')
      obtain hread' | ⟨files', hfiles', hread'⟩ := hread'
      · rw [hfiles] at hread'
        cases hread'
      · obtain rfl := Except.ok.inj (hfiles.symm.trans hfiles')
        rw [hplan] at hread'
        cases hread'
    | stuck hid' hfiles' hplan' hstat' hu =>
      obtain rfl := Except.ok.inj (hid.symm.trans hid')
      obtain rfl := Except.ok.inj (hfiles.symm.trans hfiles')
      exact ⟨⟨_, rfl⟩, l, hu.get?_ne hrev⟩
    | done hid' hfiles' hplan' hstat' hu =>
      obtain rfl := Except.ok.inj (hid.symm.trans hid')
      rw [hstat] at hstat'
      cases hstat'

def singleSource (source : Text) : Tree :=
  ((Tree.empty.set ["src"] .directory).set ["src", "components"] .directory).set ["src", "App.js"]
    (.file (Utf8.encode source))

/-- With an id of 252 bytes the file name of the component has 256, and the deletion fails although
the import is already gone. -/
theorem failed_changed_of_long_id :
    let id : Text := List.replicate 252 'a'
    let s := Settings.defaults ⟨.root, []⟩
    let t := singleSource ("import A from './components/" ++ id ++ "'")
    let done := (run s (.string (WideText.ofText id))).run ⟨t, [], none⟩
    done.1 = .failed (some (FileFault.refused .nameTooLong (s.componentFile id)).message) ∧
      done.2.tree.get? ["src", "App.js"] = some (.file []) ∧
      done.2.tree.get? ["src", "App.js"] ≠ t.get? ["src", "App.js"] := by
  decide +kernel

/-- A file that a successful deletion changes is one of the source files and holds what is left of
its text. That is its old content with only the references cut out exactly where no carriage return
is to be left in it. -/
theorem changed_eq_cutOut_iff (s : Settings) (given : Json) (t : Tree) (records : List Log.Record)
    {deleted : Bool} {updatedFiles : List WideText}
    (hdone : ((run s given).run ⟨t, records, none⟩).1 = .done deleted updatedFiles)
    {l : Location} {old new : Bytes} (hold : t.get? l = some (.file old))
    (hnew : ((run s given).run ⟨t, records, none⟩).2.tree.get? l = some (.file new))
    (hne : new ≠ old) :
    ∃ id files source, Identifier.require given.text? = .ok id ∧ sourceFiles s t = .ok files ∧
      (∃ p ∈ files, isOwn s id p = false ∧ t.locate p = .ok l) ∧ old = Utf8.encode source ∧
      new = Utf8.encode (strip id (Text.unifyBreaks source)) ∧
      (new = Utf8.encode (cutOut id source) ↔ '\r' ∉ cutOut id source) := by
  have hends := ends_run s given t records
  rw [hdone] at hends
  generalize ((run s given).run ⟨t, records, none⟩).2.tree = w at hends hnew
  cases hends with
  | @done id files _ _ _ u v _ hid hfiles hplan hstat hu hv hw =>
    have hkept := hv.get?_eq_some (hw.get?_eq_some hnew)
    obtain hsame | ⟨bytes, text, hrev, hrevised⟩ := hu.partly l
    · rw [hkept, hold] at hsame
      cases hsame
      exact absurd rfl hne
    · have hbytes := hold.symm.trans hrev.content
      have hencode := hkept.symm.trans hrevised
      cases hbytes
      cases hencode
      obtain ⟨source, hsource, htext, -⟩ := revisionOf_eq_some_iff.1 hrev.revised
      refine ⟨id, files, source, hid, hfiles, hrev.scanned, hsource, by rw [htext], ?_⟩
      rw [htext, ← strip_eq_cutOut_iff]
      exact ⟨Utf8.encode_injective, congrArg Utf8.encode⟩

theorem changed_eq_cutOut_iff_of_mixed_breaks :
    let s := Settings.defaults ⟨.root, []⟩
    let given := Json.string (WideText.ofText ['c'])
    let t := singleSource "import C from './components/c'\r\nd\re\n"
    let done := (run s given).run ⟨t, [], none⟩
    let old := Utf8.encode "import C from './components/c'\r\nd\re\n"
    let new := Utf8.encode "d\ne\n"
    (done.1 = .done false ["src/App.js"] ∧ t.get? ["src", "App.js"] = some (.file old) ∧
        done.2.tree.get? ["src", "App.js"] = some (.file new) ∧ new ≠ old) ∧
      ∃ id files source, Identifier.require given.text? = .ok id ∧ sourceFiles s t = .ok files ∧
        (∃ p ∈ files, isOwn s id p = false ∧ t.locate p = .ok ["src", "App.js"]) ∧
        old = Utf8.encode source ∧ new = Utf8.encode (strip id (Text.unifyBreaks source)) ∧
        (new = Utf8.encode (cutOut id source) ↔ '\r' ∉ cutOut id source) := by
  intro s given t done old new
  have hdone : done.1 = .done false ["src/App.js"] := by decide +kernel
  have hold : t.get? ["src", "App.js"] = some (.file old) := by decide +kernel
  have hnew : done.2.tree.get? ["src", "App.js"] = some (.file new) := by decide +kernel
  have hne : new ≠ old := by decide +kernel
  exact ⟨⟨hdone, hold, hnew, hne⟩, changed_eq_cutOut_iff s given t [] hdone hold hnew hne⟩

/-- A line that does not refer to the component and ends with a carriage return and a line feed
loses its carriage return. -/
theorem carriageReturn_lost :
    let s := Settings.defaults ⟨.root, []⟩
    let source : Text := "import C from './components/c'\r\nd\r\n"
    let done := (run s (.string (WideText.ofText ['c']))).run ⟨singleSource source, [], none⟩
    done.1 = .done false ["src/App.js"] ∧ cutOut ['c'] source = ['d', '\r', '\n'] ∧
      done.2.tree.get? ["src", "App.js"] = some (.file (Utf8.encode ['d', '\n'])) := by
  decide +kernel

end CanvasLift.Deletion
