import CanvasLift.Proofs.Project.Plain
import CanvasLift.Proofs.Project.Undo

namespace CanvasLift.Deletion

open Component.References (Mentions defaultImport strip strip_eq_self_iff strip_strip
  not_mem_strip)

variable {s : Settings} {id : Text} {files : List Path} {plan : List (Path × Text)}
  {t u v w : Tree} {file directory : Bool} {names : List Name} {l : Location} {content : Bytes}

/-- `names` lead to a source file that a deletion revises, and that has an import of the component
even then. -/
def KeepsImport (s : Settings) (id : Text) (t w : Tree) (names : List Name) : Prop :=
  ∃ l old new, SourceAt s t names l old ∧ ¬ Skips s id names ∧ revisionOf id old = some new ∧
    SourceAt s w names l (Utf8.encode new) ∧ (defaultImport id).occursIn new = true

theorem Cleared.wellFormed {p : Path} (ht : t.WellFormed) (h : Cleared p t file u) :
    u.WellFormed := by
  cases file with
  | false => exact h ▸ ht
  | true =>
    obtain ⟨l, -, rfl⟩ := h
    exact ht.remove l

theorem sourceFiles_eq_error_iff {fault : FileFault} :
    sourceFiles s t = .error fault ↔ t.stat s.sourceDirectory = .error fault := by
  rw [← Tree.isDirectory_eq_error_iff, sourceFiles]
  cases hdir : t.isDirectory s.sourceDirectory with
  | error other => simp [bind, Except.bind]
  | ok b =>
    cases b with
    | false => simp [bind, Except.bind, pure, Except.pure]
    | true =>
      obtain ⟨top, htop, -⟩ := Tree.isDirectory_eq_true_iff.1 hdir
      simp [htop, bind, Except.bind, pure, Except.pure]

namespace Stages

variable (h : Stages s id files t u v w file directory)
include h

theorem wellFormed (ht : t.WellFormed) : w.WellFormed := by
  have hu := ht.sameKinds h.revised.partly.sameKinds
  exact h.clearedDirectory.wellFormed (h.clearedFile.wellFormed hu)

theorem exists_sourceAt (hat : SourceAt s w names l content) : ∃ old, SourceAt s t names l old := by
  obtain ⟨top, htop, hl⟩ := hat.below
  have hu := h.clearedFile.without.get?_eq_some (h.clearedDirectory.without.get?_eq_some hat.content)
  obtain ⟨old, hold⟩ := h.revised.partly.sameKinds.symm.exists_file hu
  exact ⟨old, ⟨top, Tree.locate_ok_of_directoriesIn h.directoriesIn htop, hl⟩, hold, hat.ending,
    hat.searched⟩

theorem not_ownPlace (ht : t.WellFormed) {given : Option Text}
    (hid : Identifier.require given = .ok id) (hat : SourceAt s w names l content) :
    ¬ OwnPlace s id t l := by
  obtain ⟨old, hold⟩ := h.exists_sourceAt hat
  rintro (hfile | ⟨d, hd, hpre⟩)
  · have hgone := h.get?_eq_none_of_isFile (Tree.isFile_eq_true_iff.2 ⟨l, old, hfile, hold.content⟩)
      hfile
    rw [hat.content] at hgone
    cases hgone
  · by_cases hdir : t.get? d = some .directory
    · have hnil : l ≠ [] := by
        rintro rfl
        cases hat.content
      have hgone := h.get?_eq_none_of_isDirectory ht hnil hd hdir hpre
      rw [hat.content] at hgone
      cases hgone
    · by_cases hld : l = d
      · -- A file in the place of the directory is not named like a source file.
        obtain ⟨above, hlast, -⟩ :=
          Tree.exists_of_locate_child (Identifier.ne_up_of_require hid) hd
        obtain ⟨top, -, hl⟩ := hat.below
        obtain ⟨front, last, rfl⟩ := List.eq_nil_or_concat names |>.resolve_left hat.ne_nil
        rw [hld, hlast, List.concat_eq_append, ← List.append_assoc] at hl
        obtain rfl := (List.append_singleton_inj.1 hl).2
        have hending := hat.ending
        simp [isSourceName_of_isAllowed (Identifier.isAllowed_of_require hid)] at hending
      · have habsent := ht.get?_of_prefix hdir hpre hld
        rw [hold.content] at habsent
        cases habsent

theorem searchable (ht : t.WellFormed) (hfiles : sourceFiles s t = .ok files)
    (hplan : planned s id t files = .ok plan) : Searchable s id w := by
  have hw := h.wellFormed ht
  obtain ⟨files', hfiles'⟩ : ∃ files', sourceFiles s w = .ok files' := by
    cases hsource : sourceFiles s w with
    | ok files' => exact ⟨files', rfl⟩
    | error fault =>
      have hstat := Tree.stat_error_of_directoriesIn h.directoriesIn
        (sourceFiles_eq_error_iff.1 hsource)
      rw [sourceFiles_eq_error_iff.2 hstat] at hfiles
      cases hfiles
  obtain ⟨found, hfound, rfl⟩ := exists_found ht hfiles
  obtain ⟨found', hfound', rfl⟩ := exists_found hw hfiles'
  refine ⟨_, hfiles', fun p hp ↦ ?_⟩
  obtain ⟨names, hnames, rfl⟩ := List.mem_map.1 hp
  obtain ⟨⟨l, content, hat⟩, hlisted⟩ := (hfound'.mem_iff names).1 hnames
  obtain ⟨old, hold⟩ := h.exists_sourceAt hat
  by_cases hskips : Skips s id names
  · refine .inl (hskips.resolve_left fun hnot ↦ ?_)
    rw [hlisted] at hnot
    cases hnot
  · obtain ⟨hl, -, -⟩ := hold.located ht hfound hplan hskips
    obtain ⟨top, htop, hbelow⟩ := hat.below
    have hlw := hw.locate (Tree.locate_ok_of_directoriesIn h.directoriesIn htop) htop
      (hat.up_not_mem hw) hl hat.content
    exact .inr ⟨content, Tree.read_eq_ok_iff.2 ⟨l, hlw, hat.content⟩⟩

end Stages

/-- What is to be revised after a deletion are the files in which it left an import. -/
theorem Frame.keepsImport_iff {deleted : Bool} {updatedFiles : List WideText}
    (hframe : Frame s id (fun names _ ↦ Skips s id names) t w deleted updatedFiles)
    (hsource : ∀ names l content, SourceAt s w names l content →
      (∃ old, SourceAt s t names l old) ∧ ¬ OwnPlace s id t l) :
    KeepsImport s id t w names ↔
      ∃ l content, SourceAt s w names l content ∧ ¬ Skips s id names ∧ revisionOf id content ≠ none := by
  have hclean : ∀ {old : Bytes} {new : Text}, revisionOf id old = some new →
      Text.unifyBreaks new = new := by
    intro old new hnew
    obtain ⟨text, -, rfl, -⟩ := revisionOf_eq_some_iff.1 hnew
    exact Text.unifyBreaks_of_not_mem (not_mem_strip (Text.not_mem_unifyBreaks text))
  constructor
  · rintro ⟨l, old, new, -, hskips, hnew, hat, himport⟩
    refine ⟨l, _, hat, hskips, fun hnone ↦ ?_⟩
    rw [revisionOf_encode_eq_none_iff, hclean hnew, himport] at hnone
    cases hnone
  · rintro ⟨l, content, hat, hskips, hrevised⟩
    obtain ⟨⟨old, hold⟩, hown⟩ := hsource names l content hat
    have hcontent := hframe.revised names l old hold hown hskips
    rw [hat.content] at hcontent
    obtain rfl : content = (revisionOf id old).elim old Utf8.encode := by simpa using hcontent
    cases hnew : revisionOf id old with
    | none =>
      rw [hnew] at hrevised
      exact absurd hnew hrevised
    | some new =>
      rw [hnew] at hat hrevised
      refine ⟨l, old, new, hold, hskips, hnew, hat, ?_⟩
      simpa [revisionOf_encode_eq_none_iff, hclean hnew] using hrevised

theorem Stages.get?_eq_iff (h : Stages s id files t u v w false false) :
    (∀ l, w.get? l = t.get? l) ↔ ∀ l old new, ¬ Revision s id files t l old new := by
  obtain rfl : v = u := h.clearedFile
  obtain rfl : w = v := h.clearedDirectory
  constructor
  · exact fun hsame l old new hrev ↦ h.revised.get?_ne hrev (hsame l)
  · exact fun hnone l ↦ h.revised.get?_of_not_revision (hnone l)

theorem Stages.exists_again (h : Stages s id files t u v w file directory) (ht : t.WellFormed)
    {given : Json} {e : Option Entry} {deleted : Bool} {updatedFiles : List WideText}
    (hid : Identifier.require given.text? = .ok id) (hfiles : sourceFiles s t = .ok files)
    (hplan : planned s id t files = .ok plan) (hstat : t.stat (s.componentFile id) = .ok e)
    (hframe : Frame s id (fun names _ ↦ Skips s id names) t w deleted updatedFiles)
    (records : List Log.Record) :
    let again := (run s given).run ⟨w, records, none⟩
    ∃ kept : List (List Name),
      again.1 = .done false (kept.map fun names ↦ s.relative (sourcePath s names)) ∧
      kept.Pairwise Tree.Precedes ∧ kept.Nodup ∧
      (∀ names, names ∈ kept ↔ KeepsImport s id t w names) ∧
      ((∀ l, again.2.tree.get? l = w.get? l) ↔ kept = []) := by
  intro again
  have hw := h.wellFormed ht
  obtain ⟨e', hstat'⟩ : ∃ e', w.stat (s.componentFile id) = .ok e' := by
    cases hcase : w.stat (s.componentFile id) with
    | ok e' => exact ⟨e', rfl⟩
    | error fault =>
      rw [Tree.stat_error_of_directoriesIn h.directoriesIn hcase] at hstat
      cases hstat
  obtain ⟨deleted', updatedFiles', hdone⟩ :=
    (run_searchable records hid hstat').1 (h.searchable ht hfiles hplan)
  obtain ⟨id', files', plan', _, u', v', file', directory', hid', hfiles', hplan', -, h', rfl, rfl⟩ :=
    exists_stages_of_done hdone
  obtain rfl := Except.ok.inj (hid.symm.trans hid')
  obtain ⟨found, hfound, rfl⟩ := exists_found hw hfiles'
  obtain rfl : file' = false := by
    rw [Bool.eq_false_iff, Ne, h'.isFile_iff, hframe.file_gone]
    simp
  obtain rfl : directory' = false := by
    rw [Bool.eq_false_iff, Ne, h'.isDirectory_iff hw, hframe.directory_gone]
    simp
  obtain ⟨kept, hkept, hordered, hnodup, hmem⟩ := exists_updated hw hfound hplan'
  have hlisted : (plan'.map fun e ↦ s.relative e.1) =
      kept.map fun names ↦ s.relative (sourcePath s names) := by
    have hrelative := congrArg (List.map s.relative) hkept
    rwa [List.map_map, List.map_map] at hrelative
  refine ⟨kept, by rw [hdone, hlisted]; rfl, hordered, hnodup, fun names ↦ ?_, ?_⟩
  · rw [hmem, hframe.keepsImport_iff]
    exact fun names l content hat ↦ ⟨h.exists_sourceAt hat, h.not_ownPlace ht hid hat⟩
  · rw [h'.get?_eq_iff, List.eq_nil_iff_forall_not_mem]
    constructor
    · intro hnone names hin
      obtain ⟨l, old, hat, hskips, hrevised⟩ := (hmem names).1 hin
      obtain ⟨new, hnew⟩ := Option.ne_none_iff_exists'.1 hrevised
      exact hnone l old new ((revision_iff hw hfound hplan').2 ⟨hnew, names, hat, hskips⟩)
    · intro hnone l old new hrev
      obtain ⟨hnew, names, hat, hskips⟩ := (revision_iff hw hfound hplan').1 hrev
      refine hnone names ((hmem names).2 ⟨l, old, hat, hskips, ?_⟩)
      rw [hnew]
      simp

/-- A deletion right after one that succeeded succeeds too and removes nothing. It changes the files
in which the first one left an import of the component, and so nothing exactly where there is none;
a text is left with one where cutting out imports and uses makes a new one, and so only where a
module path of the component is left beside its imports. -/
theorem run_again_iff (s : Settings) (given : Json) (t : Tree) (records : List Log.Record)
    (ht : t.WellFormed) {deleted : Bool} {updatedFiles : List WideText}
    (hdone : ((run s given).run ⟨t, records, none⟩).1 = .done deleted updatedFiles) :
    let once := ((run s given).run ⟨t, records, none⟩).2
    let again := (run s given).run once
    ∃ id, Identifier.require given.text? = .ok id ∧
      (∃ kept : List (List Name),
        again.1 = .done false (kept.map fun names ↦ s.relative (sourcePath s names)) ∧
        kept.Pairwise Tree.Precedes ∧ kept.Nodup ∧
        ∀ names, names ∈ kept ↔ KeepsImport s id t once.tree names) ∧
      ((again.1 = .done false [] ∧ ∀ l, again.2.tree.get? l = once.tree.get? l) ↔
        ∀ names, ¬ KeepsImport s id t once.tree names) ∧
      ∀ content,
        (strip id (strip id content) = strip id content ↔
          (defaultImport id).occursIn (strip id content) = false) ∧
        (¬ Mentions id ((defaultImport id).erase content) →
          strip id (strip id content) = strip id content) := by
  intro once again
  obtain ⟨id, files, plan, e, u, v, file, directory, hid, hfiles, hplan, hstat, h, -, -⟩ :=
    exists_stages_of_done hdone
  obtain ⟨id', hid', hframe⟩ := frame_skips ht hdone
  obtain rfl := Except.ok.inj (hid.symm.trans hid')
  obtain ⟨report, w, hyields⟩ := exists_yields_run s given t
  obtain ⟨more, hmore⟩ := hyields records
  have honce : once = ⟨w, records ++ more, none⟩ := congrArg Prod.snd hmore
  change Stages s id files t u v once.tree file directory at h
  change Frame s id (fun names _ ↦ Skips s id names) t once.tree deleted updatedFiles at hframe
  rw [honce] at h hframe
  obtain ⟨kept, hreport, hordered, hnodup, hkeeps, hsame⟩ :=
    h.exists_again ht hid hfiles hplan hstat hframe (records ++ more)
  rw [← honce] at hreport hkeeps hsame
  refine ⟨id, hid, ⟨kept, hreport, hordered, hnodup, hkeeps⟩, ?_, fun content ↦
    ⟨strip_eq_self_iff, strip_strip (Identifier.isAllowed_of_require hid)⟩⟩
  simp only [← hkeeps, ← List.eq_nil_iff_forall_not_mem]
  constructor
  · exact fun hnothing ↦ hsame.1 hnothing.2
  · intro hnil
    refine ⟨?_, hsame.2 hnil⟩
    rw [hnil] at hreport
    exact hreport

theorem run_again_iff_of_two_lines :
    let s := Settings.defaults ⟨.root, []⟩
    let given := Json.string (WideText.ofText ['c'])
    let t := singleSource "import A from './components/c'\nimport B from './components/c'\n"
    let once := (run s given).run ⟨t, [], none⟩
    let again := (run s given).run once.2
    (t.WellFormed ∧ once.1 = .done false ["src/App.js"]) ∧
      ∃ id, Identifier.require given.text? = .ok id ∧
        (∃ kept : List (List Name),
          again.1 = .done false (kept.map fun names ↦ s.relative (sourcePath s names)) ∧
          kept.Pairwise Tree.Precedes ∧ kept.Nodup ∧
          ∀ names, names ∈ kept ↔ KeepsImport s id t once.2.tree names) ∧
        ((again.1 = .done false [] ∧ ∀ l, again.2.tree.get? l = once.2.tree.get? l) ↔
          ∀ names, ¬ KeepsImport s id t once.2.tree names) ∧
        ∀ content,
          (strip id (strip id content) = strip id content ↔
            (defaultImport id).occursIn (strip id content) = false) ∧
          (¬ Mentions id ((defaultImport id).erase content) →
            strip id (strip id content) = strip id content) := by
  intro s given t once again
  have ht : t.WellFormed := by decide
  have hdone : once.1 = .done false ["src/App.js"] := by decide +kernel
  exact ⟨⟨ht, hdone⟩, run_again_iff s given t [] ht hdone⟩

/-- Of two imports on one line the second one starts the line only when the first one is cut out, and
it takes a second deletion to cut it out too. -/
theorem import_kept_of_one_line :
    let s := Settings.defaults ⟨.root, []⟩
    let given := Json.string (WideText.ofText ['c'])
    let source : Text := "import A from './components/c';import B from './components/c';"
    let kept : Text := "import B from './components/c';"
    let once := (run s given).run ⟨singleSource source, [], none⟩
    let again := (run s given).run once.2
    once.1 = .done false ["src/App.js"] ∧
      once.2.tree.get? ["src", "App.js"] = some (.file (Utf8.encode kept)) ∧
      again.1 = .done false ["src/App.js"] ∧
      again.2.tree.get? ["src", "App.js"] = some (.file []) ∧
      strip ['c'] source = kept ∧ strip ['c'] (strip ['c'] source) = [] := by
  decide +kernel

end CanvasLift.Deletion
