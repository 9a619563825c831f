import CanvasLift.Proofs.Project.Frame
import CanvasLift.Proofs.Project.Generation

namespace CanvasLift.Deletion

/-- The components directory is there, and nothing in it stands in the places of the component. -/
structure Vacant (s : Settings) (id : Text) (t : Tree) (d : Location) : Prop where
  located : t.locate s.componentsDirectory = .ok d
  directory : t.get? d = some .directory
  file_absent : t.get? (d ++ [WideText.ofText (id ++ Settings.componentEnding)]) = none
  directory_absent : t.get? (d ++ [WideText.ofText id]) = none

/-- The source directory can be looked up, and the files in it can be read. -/
def Searchable (s : Settings) (id : Text) (t : Tree) : Prop :=
  ∃ files, sourceFiles s t = .ok files ∧
    ∀ p ∈ files, isOwn s id p = true ∨ ∃ bytes, t.read p = .ok bytes

variable {s : Settings} {id : Text} {t u w : Tree} {d l : Location}

theorem searchable_iff : Searchable s id t ↔
    ∃ files plan, sourceFiles s t = .ok files ∧ planned s id t files = .ok plan := by
  refine exists_congr fun files ↦ ?_
  rw [← exists_planned_iff, ← exists_and_left]

/-- What `u` has more than `t` is the file of the component, in a place where nothing was. -/
structure Added (s : Settings) (id : Text) (t u : Tree) (d : Location) (bytes : Bytes) : Prop where
  vacant : Vacant s id t d
  tree : u = t.set (d ++ [WideText.ofText (id ++ Settings.componentEnding)]) (.file bytes)
  file : u.locate (s.componentFile id) = .ok (d ++ [WideText.ofText (id ++ Settings.componentEnding)])

theorem Vacant.added {bytes : Bytes} (hv : Vacant s id t d)
    (h : t.write (s.componentFile id) bytes = .ok u) : Added s id t u d bytes := by
  obtain ⟨l, hl, hfree, rfl⟩ := Tree.write_eq_ok_iff.1 h
  obtain ⟨rfl, -⟩ := Tree.locate_child (Settings.componentName_ne_up _) hv.located hl
  exact ⟨hv, rfl, Tree.locate_ok_of_directoriesIn (Generation.directoriesIn_set hfree) hl⟩

namespace Added

variable {bytes : Bytes} (h : Added s id t u d bytes)
include h

theorem get?_file :
    u.get? (d ++ [WideText.ofText (id ++ Settings.componentEnding)]) = some (.file bytes) := by
  rw [h.tree, Tree.get?_set_self _ _ (by simp)]

theorem get?_of_ne (hl : l ≠ d ++ [WideText.ofText (id ++ Settings.componentEnding)]) :
    u.get? l = t.get? l := by
  rw [h.tree, Tree.get?_set_of_ne _ _ hl]

theorem directoriesIn : Tree.DirectoriesIn u t := by
  intro l hl
  by_cases hfile : l = d ++ [WideText.ofText (id ++ Settings.componentEnding)]
  · rw [hfile, h.get?_file] at hl
    cases hl
  · rwa [h.get?_of_ne hfile] at hl

theorem isFile : u.isFile (s.componentFile id) = .ok true :=
  Tree.isFile_eq_true_iff.2 ⟨_, bytes, h.file, h.get?_file⟩

theorem stat : u.stat (s.componentFile id) = .ok (some (.file bytes)) := by
  rw [Tree.stat, h.file]
  exact congrArg Except.ok h.get?_file

theorem wellFormed (ht : t.WellFormed) : u.WellFormed := by
  rw [h.tree]
  refine ht.set h.vacant.directory (Settings.componentName_ne_up _) fun hdir ↦ ?_
  rw [h.vacant.file_absent] at hdir
  cases hdir

theorem get?_ownPlace (ht : t.WellFormed) (hup : id ≠ Path.up) (hl : OwnPlace s id u l) :
    t.get? l = none := by
  rcases hl with hl | ⟨m, hm, hpre⟩
  · obtain rfl := Except.ok.inj (h.file.symm.trans hl)
    exact h.vacant.file_absent
  · have hmt := Tree.locate_ok_of_directoriesIn h.directoriesIn hm
    obtain ⟨rfl, -⟩ := Tree.locate_child hup h.vacant.located hmt
    by_cases hne : l = d ++ [WideText.ofText id]
    · rw [hne]
      exact h.vacant.directory_absent
    · refine ht.get?_of_prefix ?_ hpre hne
      rw [h.vacant.directory_absent]
      simp

theorem sourceAt {names : List Name} {content : Bytes} (hat : SourceAt s u names l content)
    (hl : l ≠ d ++ [WideText.ofText (id ++ Settings.componentEnding)]) :
    SourceAt s t names l content := by
  obtain ⟨top, htop, htops⟩ := hat.below
  refine ⟨⟨top, Tree.locate_ok_of_directoriesIn h.directoriesIn htop, htops⟩, ?_, hat.ending,
    hat.searched⟩
  rw [← h.get?_of_ne hl]
  exact hat.content

theorem get?_of_frame {deleted : Bool}
    {updatedFiles : List WideText}
    (hframe : Frame s id (fun names _ ↦ Skips s id names) u w deleted updatedFiles)
    (hclean : ∀ names l content, SourceAt s t names l content → revisionOf id content = none)
    (hl : ¬ OwnPlace s id u l) : w.get? l = t.get? l := by
  have hne : l ≠ d ++ [WideText.ofText (id ++ Settings.componentEnding)] := by
    rintro rfl
    exact hl (.inl h.file)
  rw [← h.get?_of_ne hne]
  by_cases hsource : ∃ names content, SourceAt s u names l content
  · obtain ⟨names, content, hat⟩ := hsource
    rw [hat.content]
    by_cases hskips : Skips s id names
    · exact hframe.skipped names l content hat hl hskips
    · rw [hframe.revised names l content hat hl hskips,
        hclean names l content (h.sourceAt hat hne)]
      rfl
  · exact hframe.others l hl fun names content hat ↦ hsource ⟨names, content, hat⟩

theorem restored {given : Json} {records : List Log.Record} {deleted : Bool}
    {updatedFiles : List WideText} (ht : t.WellFormed)
    (hid : Identifier.require given.text? = .ok id)
    (hclean : ∀ names l content, SourceAt s t names l content → revisionOf id content = none)
    (hdone : ((run s given).run ⟨u, records, none⟩).1 = .done deleted updatedFiles) :
    deleted = true ∧ ∀ l, ((run s given).run ⟨u, records, none⟩).2.tree.get? l = t.get? l := by
  have hup := Identifier.ne_up_of_require hid
  obtain ⟨id', hid', hframe⟩ := frame_skips (h.wellFormed ht) hdone
  obtain rfl := Except.ok.inj (hid.symm.trans hid')
  obtain ⟨id', _, _, _, _, _, file, directory, hid', -, -, -, hstages, rfl, -⟩ :=
    exists_stages_of_done hdone
  obtain rfl := Except.ok.inj (hid.symm.trans hid')
  obtain rfl := hstages.isFile_iff.2 h.isFile
  refine ⟨rfl, fun l ↦ ?_⟩
  by_cases hown : OwnPlace s id u l
  · have habsent := h.get?_ownPlace ht hup hown
    rw [habsent]
    by_cases hfile : l = d ++ [WideText.ofText (id ++ Settings.componentEnding)]
    · exact hstages.get?_eq_none_of_isFile h.isFile (hfile ▸ h.file)
    · exact hstages.get?_eq_none (by rw [h.get?_of_ne hfile, habsent])
  · exact h.get?_of_frame hframe hclean hown

end Added

theorem run_searchable {given : Json} (records : List Log.Record)
    (hid : Identifier.require given.text? = .ok id) {e : Option Entry}
    (hstat : t.stat (s.componentFile id) = .ok e) :
    let done := (run s given).run ⟨t, records, none⟩
    (Searchable s id t → ∃ deleted updatedFiles, done.1 = .done deleted updatedFiles) ∧
      (¬ Searchable s id t → (∃ error, done.1 = .failed error) ∧ done.2.tree = t) := by
  intro done
  have hends : Ends s given t done.1 done.2.tree := ends_run s given t records
  clear_value done
  obtain ⟨report, w⟩ := done
  dsimp only at hends ⊢
  generalize w.tree = v at hends ⊢
  rw [searchable_iff]
  cases hends with
  | unusable hid' =>
    rw [hid] at hid'
    cases hid'
  | unread hid' hread =>
    obtain rfl := Except.ok.inj (hid.symm.trans hid')
    refine ⟨?_, fun _ ↦ ⟨⟨_, rfl⟩, rfl⟩⟩
    rintro ⟨files, plan, hfiles, hplan⟩
    rcases hread with hread | ⟨files', hfiles', hread⟩
    · rw [hfiles] at hread
      cases hread
    · obtain rfl := Except.ok.inj (hfiles.symm.trans hfiles')
      rw [hplan] at hread
      cases hread
  | stuck hid' hfiles hplan hstat' =>
    obtain rfl := Except.ok.inj (hid.symm.trans hid')
    rw [hstat] at hstat'
    cases hstat'
  | done hid' hfiles hplan =>
    obtain rfl := Except.ok.inj (hid.symm.trans hid')
    exact ⟨fun _ ↦ ⟨_, _, rfl⟩, fun hnot ↦ absurd ⟨_, _, hfiles, hplan⟩ hnot⟩

/-- A deletion after a generation of the same component succeeds where the source files can be
searched, and the tree is then as it was before both; otherwise it fails and leaves all that was
generated. -/
theorem delete_undoes_generate (host : Host) (s : Settings) {given given' : Json} {id : Text}
    {t : Tree} (records : List Log.Record) {d : Location} (ht : t.WellFormed)
    (hgenerate : Identifier.require given.text? = .ok id)
    (hdelete : Identifier.require given'.text? = .ok id) (hvacant : Vacant s id t d)
    (hclean : ∀ names l content, SourceAt s t names l (Utf8.encode content) →
      Component.References.strip id (Text.unifyBreaks content) = Text.unifyBreaks content)
    (hsuccess : ((Generation.run host s given).run ⟨t, records, none⟩).1.success = true) :
    let generated := ((Generation.run host s given).run ⟨t, records, none⟩).2
    let done := (run s given').run generated
    (Searchable s id generated.tree →
      (∃ updatedFiles, done.1 = .done true updatedFiles) ∧
        ∀ l, done.2.tree.get? l = t.get? l) ∧
    (¬ Searchable s id generated.tree →
      (∃ error, done.1 = .failed error) ∧ done.2.tree = generated.tree) := by
  intro generated done
  have hdir : t.isDirectory s.componentsDirectory = .ok true :=
    Tree.isDirectory_eq_true_iff.2 ⟨d, hvacant.located, hvacant.directory⟩
  obtain ⟨u, more, hwrite, hgenerated⟩ :=
    Generation.exists_write_of_success hgenerate hdir hsuccess
  have hadded := hvacant.added hwrite
  have hclean' : ∀ names l content, SourceAt s t names l content → revisionOf id content = none := by
    intro names l content hat
    refine revisionOf_eq_none_iff.2 fun text htext ↦ hclean names l text ?_
    rwa [← htext]
  have hdone : done = (run s given').run ⟨u, records ++ more, none⟩ :=
    congrArg (StateT.run (run s given')) hgenerated
  rw [hdone, show generated = ⟨u, records ++ more, none⟩ from hgenerated]
  obtain ⟨hsearched, hunsearched⟩ := run_searchable (records ++ more) hdelete hadded.stat
  refine ⟨fun hsearchable ↦ ?_, hunsearched⟩
  obtain ⟨deleted, updatedFiles, hreport⟩ := hsearched hsearchable
  obtain ⟨rfl, hrestored⟩ := hadded.restored ht hdelete hclean' hreport
  exact ⟨⟨updatedFiles, hreport⟩, hrestored⟩

theorem delete_undoes_generate_tile :
    let host : Host := .withYaml ⟨.root, []⟩ "/" []
    let s := { Settings.defaults ⟨.root, []⟩ with componentsDirectory := ⟨.root, ["tiles"]⟩ }
    let given := Json.string (WideText.ofText "tile")
    let t := ((Tree.empty.set ["tiles"] .directory).set ["src"] .directory).set ["src", "a.js"]
      (.file (Utf8.encode ['d']))
    let generated := ((Generation.run host s given).run ⟨t, [], none⟩).2
    let done := (run s given).run generated
    (t.WellFormed ∧ Identifier.require given.text? = .ok "tile".toList ∧
        Vacant s "tile" t ["tiles"] ∧
        (∀ names l content, SourceAt s t names l (Utf8.encode content) →
          Component.References.strip "tile" (Text.unifyBreaks content) = Text.unifyBreaks content) ∧
        ((Generation.run host s given).run ⟨t, [], none⟩).1.success = true ∧
        Searchable s "tile" generated.tree) ∧
      (∃ updatedFiles, done.1 = .done true updatedFiles) ∧ ∀ l, done.2.tree.get? l = t.get? l := by
  intro host s given t generated done
  have ht : t.WellFormed := by decide
  have hid : Identifier.require given.text? = .ok "tile".toList := by decide
  have hvacant : Vacant s "tile" t ["tiles"] := ⟨by decide, by decide, by decide, by decide⟩
  have hclean : ∀ names l content, SourceAt s t names l (Utf8.encode content) →
      Component.References.strip "tile" (Text.unifyBreaks content) = Text.unifyBreaks content := by
    intro names l content hat
    have hfiles : ∀ e ∈ t.entries, e.2 = .directory ∨ e.2 = .file (Utf8.encode ['d']) := by decide
    have hl : l ≠ [] := by
      rintro rfl
      cases hat.content
    rcases hfiles _ ((Tree.mem_entries_iff hl).2 hat.content) with h | h
    · cases h
    · rw [Utf8.encode_injective (Entry.file.inj h)]
      decide
  have hsuccess : ((Generation.run host s given).run ⟨t, [], none⟩).1.success = true := by
    decide +kernel
  have hsearchable : Searchable s "tile" generated.tree :=
    ⟨[⟨.root, ["src", "a.js"]⟩], by decide +kernel, fun p hp ↦ .inr ⟨Utf8.encode ['d'], by
      rw [List.mem_singleton.1 hp]
      decide +kernel⟩⟩
  have hundone := delete_undoes_generate host s [] ht hid hid hvacant hclean hsuccess
  exact ⟨⟨ht, hid, hvacant, hclean, hsuccess, hsearchable⟩, hundone.1 hsearchable⟩

/-- With a name that is too long in the path of the source directory, nothing is searched, nothing
refers to the component, and yet what was generated stays. -/
theorem delete_fails_of_long_sourceDirectory :
    let host : Host := .withYaml ⟨.root, []⟩ "/" []
    let s := { Settings.defaults ⟨.root, []⟩ with
      sourceDirectory := (⟨.root, []⟩ : Path).join (.ofText (List.replicate 256 (.char 'a'))) }
    let given := Json.string (WideText.ofText "tile")
    let t := (Tree.empty.set ["src"] .directory).set ["src", "components"] .directory
    let generated := (Generation.run host s given).run ⟨t, [], none⟩
    let done := (run s given).run generated.2
    t.WellFormed ∧ Identifier.require given.text? = .ok "tile".toList ∧
      t.locate s.componentsDirectory = .ok ["src", "components"] ∧
      t.get? ["src", "components", "tile.tsx"] = none ∧ t.get? ["src", "components", "tile"] = none ∧
      (∀ e ∈ t.entries, e.2 = .directory) ∧ generated.1.success = true ∧
      done.1 = .failed (some (FileFault.refused .nameTooLong s.sourceDirectory).message) ∧
      done.2.tree.get? ["src", "components", "tile.tsx"] ≠ none := by
  decide +kernel

end CanvasLift.Deletion
