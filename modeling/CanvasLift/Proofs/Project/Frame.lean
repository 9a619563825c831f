import CanvasLift.Proofs.Identifier
import CanvasLift.Proofs.Project.Deletion
import CanvasLift.Proofs.Project.Scan
import Mathlib.Data.List.Perm.Subperm

namespace CanvasLift.Deletion

/-- The places of a component: its file, and its directory with all that is below it. -/
def OwnPlace (s : Settings) (id : Text) (t : Tree) (l : Location) : Prop :=
  t.locate (s.componentFile id) = .ok l ∨
    ∃ d, t.locate (componentDirectory s id) = .ok d ∧ d <+: l

/-- `w` is `t` without the places of the component `id` and without the references to it in the
source files, apart from those that are left out. -/
structure Frame (s : Settings) (id : Text) (leftOut : List Name → Location → Prop) (t w : Tree)
    (deleted : Bool) (updatedFiles : List WideText) : Prop where
  file_gone : w.isFile (s.componentFile id) = .ok false
  directory_gone : w.isDirectory (componentDirectory s id) = .ok false
  deleted_iff : deleted = true ↔ t.isFile (s.componentFile id) = .ok true ∨
    t.isDirectory (componentDirectory s id) = .ok true
  others : ∀ l, ¬ OwnPlace s id t l → (∀ names content, ¬ SourceAt s t names l content) →
    w.get? l = t.get? l
  skipped : ∀ names l old, SourceAt s t names l old → ¬ OwnPlace s id t l → leftOut names l →
    w.get? l = some (.file old)
  revised : ∀ names l old, SourceAt s t names l old → ¬ OwnPlace s id t l → ¬ leftOut names l →
    w.get? l = some (.file ((revisionOf id old).elim old Utf8.encode))
  listed : ∃ updated : List (List Name),
    updatedFiles = updated.map (fun names ↦ s.relative (sourcePath s names)) ∧
    updated.Pairwise Tree.Precedes ∧ updated.Nodup ∧
    ∀ names, names ∈ updated ↔ ∃ l old, SourceAt s t names l old ∧ ¬ leftOut names l ∧
      revisionOf id old ≠ none

variable {s : Settings} {id : Text} {files : List Path} {t u v w : Tree} {file directory : Bool}
  {l : Location}

namespace Stages

variable (h : Stages s id files t u v w file directory)
include h

theorem directoriesIn : Tree.DirectoriesIn w t := by
  intro l hl
  have hu := h.clearedFile.without.get?_eq_some (h.clearedDirectory.without.get?_eq_some hl)
  have hkind := h.revised.partly.sameKinds l
  rw [hu] at hkind
  exact Tree.map_isDirectory_eq_true_iff.1 hkind

theorem isFile_iff : file = true ↔ t.isFile (s.componentFile id) = .ok true := by
  have hkinds := h.revised.partly.sameKinds
  have hfile := h.isFile
  constructor
  · rintro rfl
    obtain ⟨l, content, hl, hcontent⟩ := Tree.isFile_eq_true_iff.1 hfile
    obtain ⟨content', ht⟩ := hkinds.symm.exists_file hcontent
    exact Tree.isFile_eq_true_iff.2 ⟨l, content', by rwa [Tree.locate_sameKinds hkinds], ht⟩
  · intro ht
    obtain ⟨l, content, hl, hcontent⟩ := Tree.isFile_eq_true_iff.1 ht
    obtain ⟨content', hu⟩ := hkinds.exists_file hcontent
    rw [Tree.locate_sameKinds hkinds] at hl
    rw [Tree.isFile_eq_true_iff.2 ⟨l, content', hl, hu⟩] at hfile
    exact (Except.ok.inj hfile).symm

theorem get?_of_clearedFile (ht : t.WellFormed) (hl : t.locate (s.componentFile id) ≠ .ok l) :
    v.get? l = u.get? l := by
  have hkinds := h.revised.partly.sameKinds
  by_cases hnil : l = []
  · rw [hnil]
    rfl
  · have hcleared := h.clearedFile
    have hfile := h.isFile
    cases file with
    | false => rw [hcleared]
    | true =>
      obtain ⟨m, hm, rfl⟩ := hcleared
      obtain ⟨m', content, hm', hcontent⟩ := Tree.isFile_eq_true_iff.1 hfile
      obtain rfl := Except.ok.inj (hm.symm.trans hm')
      rw [Tree.get?_remove hnil]
      split
      · next hpre =>
        obtain ⟨content', hfile'⟩ := hkinds.symm.exists_file hcontent
        have hne : l ≠ m := by
          rintro rfl
          exact hl ((Tree.locate_sameKinds hkinds _).trans hm)
        have habsent := ht.get?_of_prefix (by rw [hfile']; simp) hpre hne
        have hkind := hkinds l
        rw [habsent] at hkind
        exact (Option.map_eq_none_iff.1 hkind.symm).symm
      · rfl

theorem directoriesIn_clearedFile (ht : t.WellFormed) : Tree.DirectoriesIn t v := by
  have hkinds := h.revised.partly.sameKinds
  intro l hl
  have hu : u.get? l = some .directory := by
    have hkind := hkinds l
    rw [hl] at hkind
    exact Tree.map_isDirectory_eq_true_iff.1 hkind.symm
  by_cases hloc : t.locate (s.componentFile id) = .ok l
  · have hfile : file = false := by
      rw [Bool.eq_false_iff, Ne, h.isFile_iff, Tree.isFile_eq_true_iff]
      rintro ⟨m, content, hm, hcontent⟩
      obtain rfl := Except.ok.inj (hloc.symm.trans hm)
      rw [hl] at hcontent
      cases hcontent
    have hcleared := h.clearedFile
    rw [hfile] at hcleared
    obtain rfl : v = u := hcleared
    exact hu
  · rw [h.get?_of_clearedFile ht hloc, hu]

theorem directoriesIn_of_clearedFile : Tree.DirectoriesIn v t := by
  intro l hl
  have hkind := h.revised.partly.sameKinds l
  rw [h.clearedFile.without.get?_eq_some hl] at hkind
  exact Tree.map_isDirectory_eq_true_iff.1 hkind

theorem isDirectory_iff (ht : t.WellFormed) :
    directory = true ↔ t.isDirectory (componentDirectory s id) = .ok true := by
  have hdirectory := h.isDirectory
  constructor
  · rintro rfl
    obtain ⟨l, hl, hdir⟩ := Tree.isDirectory_eq_true_iff.1 hdirectory
    have hin := h.directoriesIn_of_clearedFile
    exact Tree.isDirectory_eq_true_iff.2 ⟨l, Tree.locate_ok_of_directoriesIn hin hl, hin l hdir⟩
  · intro htrue
    obtain ⟨l, hl, hdir⟩ := Tree.isDirectory_eq_true_iff.1 htrue
    have hin := h.directoriesIn_clearedFile ht
    have hv := Tree.isDirectory_eq_true_iff.2
      ⟨l, Tree.locate_ok_of_directoriesIn hin hl, hin l hdir⟩
    rw [hv] at hdirectory
    exact (Except.ok.inj hdirectory).symm

theorem get?_of_not_ownPlace (ht : t.WellFormed) (hl : ¬ OwnPlace s id t l) :
    w.get? l = u.get? l := by
  obtain ⟨hfile, hdirectory⟩ := not_or.1 hl
  rw [← h.get?_of_clearedFile ht hfile]
  by_cases hnil : l = []
  · rw [hnil]
    rfl
  · have hcleared := h.clearedDirectory
    cases directory with
    | false => rw [hcleared]
    | true =>
      obtain ⟨d, hd, rfl⟩ := hcleared
      have hdt := Tree.locate_ok_of_directoriesIn h.directoriesIn_of_clearedFile hd
      rw [Tree.get?_remove hnil, if_neg fun hpre ↦ hdirectory ⟨d, hdt, hpre⟩]

theorem get?_eq_none (hl : t.get? l = none) : w.get? l = none := by
  cases hw : w.get? l with
  | none => rfl
  | some e =>
    have hu := h.clearedFile.without.get?_eq_some (h.clearedDirectory.without.get?_eq_some hw)
    have hkind := h.revised.partly.sameKinds l
    rw [hl, hu] at hkind
    cases hkind

theorem get?_eq_none_of_isFile (hfile : t.isFile (s.componentFile id) = .ok true)
    (hl : t.locate (s.componentFile id) = .ok l) : w.get? l = none := by
  obtain ⟨m, content, hm, hcontent⟩ := Tree.isFile_eq_true_iff.1 hfile
  obtain rfl := Except.ok.inj (hm.symm.trans hl)
  have hnil : m ≠ [] := by
    rintro rfl
    cases hcontent
  obtain rfl := h.isFile_iff.2 hfile
  obtain ⟨m', hm', rfl⟩ := h.clearedFile
  rw [← Tree.locate_sameKinds h.revised.partly.sameKinds] at hm'
  obtain rfl := Except.ok.inj (hm.symm.trans hm')
  cases hw : w.get? m with
  | none => rfl
  | some e =>
    have hv := h.clearedDirectory.without.get?_eq_some hw
    rw [Tree.get?_remove hnil, if_pos List.prefix_rfl] at hv
    cases hv

theorem get?_eq_none_of_isDirectory (ht : t.WellFormed) {d : Location} (hnil : l ≠ [])
    (hd : t.locate (componentDirectory s id) = .ok d) (hdir : t.get? d = some .directory)
    (hpre : d <+: l) : w.get? l = none := by
  obtain rfl := (h.isDirectory_iff ht).2 (Tree.isDirectory_eq_true_iff.2 ⟨d, hd, hdir⟩)
  obtain ⟨m, hm, rfl⟩ := h.clearedDirectory
  have hmt := Tree.locate_ok_of_directoriesIn h.directoriesIn_of_clearedFile hm
  obtain rfl := Except.ok.inj (hmt.symm.trans hd)
  rw [Tree.get?_remove hnil, if_pos hpre]

theorem isFile_eq_false {e : Option Entry} (hstat : t.stat (s.componentFile id) = .ok e) :
    w.isFile (s.componentFile id) = .ok false := by
  cases hw : w.isFile (s.componentFile id) with
  | error fault =>
    rw [Tree.stat_error_of_directoriesIn h.directoriesIn (Tree.isFile_eq_error_iff.1 hw)] at hstat
    cases hstat
  | ok b =>
    cases b with
    | false => rfl
    | true =>
      obtain ⟨l, content, hl, hcontent⟩ := Tree.isFile_eq_true_iff.1 hw
      have hu := h.clearedFile.without.get?_eq_some
        (h.clearedDirectory.without.get?_eq_some hcontent)
      obtain ⟨content', hfile⟩ := h.revised.partly.sameKinds.symm.exists_file hu
      have hloc := Tree.locate_ok_of_directoriesIn h.directoriesIn hl
      have hgone := h.get?_eq_none_of_isFile (Tree.isFile_eq_true_iff.2 ⟨l, content', hloc, hfile⟩) hloc
      rw [hcontent] at hgone
      cases hgone

theorem isDirectory_eq_false {e : Option Entry} (hup : id ≠ Path.up)
    (hstat : t.stat (s.componentFile id) = .ok e) :
    w.isDirectory (componentDirectory s id) = .ok false := by
  cases hw : w.isDirectory (componentDirectory s id) with
  | error fault =>
    have hlong := Tree.isDirectory_eq_error_iff.1 hw
    rw [stat_componentFile_of_componentDirectory h.directoriesIn hlong] at hstat
    cases hstat
  | ok b =>
    cases b with
    | false => rfl
    | true =>
      obtain ⟨l, hl, hdir⟩ := Tree.isDirectory_eq_true_iff.1 hw
      obtain ⟨d, rfl, -⟩ := Tree.exists_of_locate_child hup hl
      have hin : Tree.DirectoriesIn w v := fun _ ↦ h.clearedDirectory.without.get?_eq_some
      have hloc := Tree.locate_ok_of_directoriesIn hin hl
      have hdirectory := h.isDirectory
      rw [Tree.isDirectory_eq_true_iff.2 ⟨_, hloc, hin _ hdir⟩] at hdirectory
      obtain rfl := Except.ok.inj hdirectory
      obtain ⟨m, hm, rfl⟩ := h.clearedDirectory
      obtain rfl := Except.ok.inj (hloc.symm.trans hm)
      rw [Tree.get?_remove (by simp), if_pos List.prefix_rfl] at hdir
      cases hdir

end Stages

theorem Revised.get?_of_revisionOf_eq_none (h : Revised s id files t u) {old : Bytes}
    (hold : t.get? l = some (.file old)) (hnone : revisionOf id old = none) :
    u.get? l = t.get? l := by
  obtain hsame | ⟨old', new, hrev, -⟩ := h.partly l
  · exact hsame
  · have hcontent := hold.symm.trans hrev.content
    cases hcontent
    rw [hrev.revised] at hnone
    cases hnone

theorem Revised.get?_of_not_revision (h : Revised s id files t u)
    (hnone : ∀ old new, ¬ Revision s id files t l old new) : u.get? l = t.get? l := by
  obtain hsame | ⟨old, new, hrev, -⟩ := h.partly l
  · exact hsame
  · exact absurd hrev (hnone old new)

theorem frame_skips {given : Json} {records : List Log.Record} (ht : t.WellFormed)
    {deleted : Bool} {updatedFiles : List WideText}
    (hdone : ((run s given).run ⟨t, records, none⟩).1 = .done deleted updatedFiles) :
    ∃ id, Identifier.require given.text? = .ok id ∧
      Frame s id (fun names _ ↦ Skips s id names) t
        ((run s given).run ⟨t, records, none⟩).2.tree deleted updatedFiles := by
  obtain ⟨id, files, plan, e, u, v, file, directory, hid, hfiles, hplan, hstat, h, rfl, rfl⟩ :=
    exists_stages_of_done hdone
  generalize ((run s given).run ⟨t, records, none⟩).2.tree = w at h ⊢
  obtain ⟨found, hfound, rfl⟩ := exists_found ht hfiles
  have hrevision : ∀ l old new, Revision s id (found.map (sourcePath s)) t l old new ↔
      revisionOf id old = some new ∧ ∃ names, SourceAt s t names l old ∧ ¬ Skips s id names :=
    fun _ _ _ ↦ revision_iff ht hfound hplan
  have hup := Identifier.ne_up_of_require hid
  refine ⟨id, hid, h.isFile_eq_false hstat, h.isDirectory_eq_false hup hstat, ?_, ?_, ?_, ?_, ?_⟩
  · rw [Bool.or_eq_true_iff, h.isFile_iff, h.isDirectory_iff ht]
  · intro l hl hnone
    rw [h.get?_of_not_ownPlace ht hl]
    refine h.revised.get?_of_not_revision fun old new hrev ↦ ?_
    obtain ⟨-, names, hat, -⟩ := (hrevision l old new).1 hrev
    exact hnone names old hat
  · intro names l old hat hl hskips
    rw [h.get?_of_not_ownPlace ht hl, ← hat.content]
    refine h.revised.get?_of_not_revision fun old' new hrev ↦ ?_
    obtain ⟨-, names', hat', hskips'⟩ := (hrevision l old' new).1 hrev
    obtain rfl := hat.names_unique hat'
    exact hskips' hskips
  · intro names l old hat hl hskips
    rw [h.get?_of_not_ownPlace ht hl]
    cases hnew : revisionOf id old with
    | none => rw [h.revised.get?_of_revisionOf_eq_none hat.content hnew, hat.content]; rfl
    | some new => exact h.revised.wholly l old new ((hrevision l old new).2 ⟨hnew, names, hat, hskips⟩)
  · obtain ⟨updated, hmap, hordered, hnodup, hmem⟩ := exists_updated ht hfound hplan
    refine ⟨updated, ?_, hordered, hnodup, hmem⟩
    have hrelative := congrArg (List.map s.relative) hmap
    rwa [List.map_map, List.map_map] at hrelative

section Agreement

variable {leftOut leftOut' : List Name → Location → Prop} {deleted : Bool}
  {updatedFiles : List WideText}
  {names : List Name} {old : Bytes}

/-- Which files are left out counts only among those that refer to the component. -/
theorem Frame.congr (h : Frame s id leftOut t w deleted updatedFiles)
    (hiff : ∀ names l old, SourceAt s t names l old → revisionOf id old ≠ none →
      (leftOut names l ↔ leftOut' names l)) : Frame s id leftOut' t w deleted updatedFiles := by
  have hkept : ∀ names l old, SourceAt s t names l old → ¬ OwnPlace s id t l →
      revisionOf id old = none → w.get? l = some (.file old) := by
    intro names l old hat hl hnone
    by_cases hleft : leftOut names l
    · exact h.skipped names l old hat hl hleft
    · rw [h.revised names l old hat hl hleft, hnone]
      rfl
  refine ⟨h.file_gone, h.directory_gone, h.deleted_iff, h.others, ?_, ?_, ?_⟩
  · intro names l old hat hl hleft
    by_cases hrevised : revisionOf id old = none
    · exact hkept names l old hat hl hrevised
    · exact h.skipped names l old hat hl ((hiff names l old hat hrevised).2 hleft)
  · intro names l old hat hl hleft
    by_cases hrevised : revisionOf id old = none
    · rw [hkept names l old hat hl hrevised, hrevised]
      rfl
    · exact h.revised names l old hat hl (mt (hiff names l old hat hrevised).1 hleft)
  · obtain ⟨updated, hupdated, hordered, hnodup, hmem⟩ := h.listed
    refine ⟨updated, hupdated, hordered, hnodup, fun names ↦ ?_⟩
    rw [hmem]
    refine exists₂_congr fun l old ↦ and_congr_right fun hat ↦ ?_
    exact and_congr_left fun hrevised ↦ not_congr (hiff names l old hat hrevised)

theorem Frame.ownPlace_of_leftOut (h : Frame s id leftOut t w deleted updatedFiles)
    (hown : Frame s id (fun _ l ↦ OwnPlace s id t l) t w deleted updatedFiles)
    (hat : SourceAt s t names l old) (hrevised : revisionOf id old ≠ none)
    (hleft : leftOut names l) : OwnPlace s id t l := by
  by_contra hl
  obtain ⟨new, hnew⟩ := Option.ne_none_iff_exists'.1 hrevised
  have hsame := h.skipped names l old hat hl hleft
  have hchanged := hown.revised names l old hat hl hl
  have heq : old = Utf8.encode new := by simpa [hsame, hnew] using hchanged
  exact encode_ne_of_revisionOf hnew heq.symm

theorem Frame.leftOut_of_ownPlace (h : Frame s id leftOut t w deleted updatedFiles)
    (hown : Frame s id (fun _ l ↦ OwnPlace s id t l) t w deleted updatedFiles)
    (hat : SourceAt s t names l old) (hrevised : revisionOf id old ≠ none)
    (hl : OwnPlace s id t l) : leftOut names l := by
  by_contra hleft
  obtain ⟨updated, hupdated, -, -, hmem⟩ := h.listed
  obtain ⟨updated', hupdated', -, hnodup', hmem'⟩ := hown.listed
  have hnot : names ∉ updated' := by
    intro hin
    obtain ⟨l', old', hat', hl', -⟩ := (hmem' names).1 hin
    obtain ⟨rfl, -⟩ := hat.unique hat'
    exact hl' hl
  have hsubset : names :: updated' ⊆ updated := by
    intro names' hin
    obtain rfl | hin := List.mem_cons.1 hin
    · exact (hmem names').2 ⟨l, old, hat, hleft, hrevised⟩
    · obtain ⟨l', old', hat', hl', hrevised'⟩ := (hmem' names').1 hin
      refine (hmem names').2 ⟨l', old', hat', fun hleft' ↦ hl' ?_, hrevised'⟩
      exact h.ownPlace_of_leftOut hown hat' hrevised' hleft'
  have hlength := ((List.nodup_cons.2 ⟨hnot, hnodup'⟩).subperm hsubset).length_le
  have hsame := congrArg List.length (hupdated.symm.trans hupdated')
  rw [List.length_map, List.length_map] at hsame
  rw [List.length_cons] at hlength
  omega

end Agreement

/-- A deletion that succeeds takes away the file and the directory of the component, revises the
source files that refer to it and are not skipped, and changes nothing else. It passes over exactly
the places of the component where these are the source files that are skipped. -/
theorem frame_ownPlace_iff (s : Settings) (given : Json) (t : Tree) (records : List Log.Record)
    (ht : t.WellFormed) {deleted : Bool} {updatedFiles : List WideText}
    (hdone : ((run s given).run ⟨t, records, none⟩).1 = .done deleted updatedFiles) :
    let w := ((run s given).run ⟨t, records, none⟩).2.tree
    ∃ id, Identifier.require given.text? = .ok id ∧
      Frame s id (fun names _ ↦ Skips s id names) t w deleted updatedFiles ∧
      (Frame s id (fun _ l ↦ OwnPlace s id t l) t w deleted updatedFiles ↔
        ∀ names l old, SourceAt s t names l old → revisionOf id old ≠ none →
          (Skips s id names ↔ OwnPlace s id t l)) := by
  intro w
  obtain ⟨id, hid, hskips⟩ := frame_skips ht hdone
  refine ⟨id, hid, hskips, fun hown names l old hat hrevised ↦ ?_, hskips.congr⟩
  exact ⟨hskips.ownPlace_of_leftOut hown hat hrevised,
    hskips.leftOut_of_ownPlace hown hat hrevised⟩

theorem frame_ownPlace_iff_of_card :
    let s := Settings.defaults ⟨.root, []⟩
    let given := Json.string (WideText.ofText ['c'])
    let t := (singleSource "import C from './components/c'").set ["src", "components", "c"] .directory
    let done := (run s given).run ⟨t, [], none⟩
    (t.WellFormed ∧ done.1 = .done true ["src/App.js"]) ∧
      ∃ id, Identifier.require given.text? = .ok id ∧
        Frame s id (fun names _ ↦ Skips s id names) t done.2.tree true ["src/App.js"] ∧
        (Frame s id (fun _ l ↦ OwnPlace s id t l) t done.2.tree true ["src/App.js"] ↔
          ∀ names l old, SourceAt s t names l old → revisionOf id old ≠ none →
            (Skips s id names ↔ OwnPlace s id t l)) := by
  intro s given t done
  have ht : t.WellFormed := by decide
  have hdone : done.1 = .done true ["src/App.js"] := by decide +kernel
  exact ⟨⟨ht, hdone⟩, frame_ownPlace_iff s given t [] ht hdone⟩

/-- The source directory is reached through the directory of the component, so that every path below
it starts with the path of that directory, and a file elsewhere keeps its import. -/
theorem reference_kept_of_detour :
    let s := { Settings.defaults ⟨.root, []⟩ with
      sourceDirectory := (⟨.root, []⟩ : Path).join (.ofText "src/components/c/../..") }
    let given := Json.string (WideText.ofText ['c'])
    let source := Utf8.encode "import C from './components/c'"
    let t := (singleSource "import C from './components/c'").set ["src", "components", "c"] .directory
    let done := (run s given).run ⟨t, [], none⟩
    done.1 = .done true [] ∧ done.2.tree.get? ["src", "App.js"] = some (.file source) ∧
      revisionOf ['c'] source = some [] ∧
      t.locate s.sourceDirectory = .ok ["src"] ∧ t.get? ["src", "App.js"] = some (.file source) ∧
      isSourceName "App.js" = true ∧
      t.locate (s.componentFile ['c']) = .ok ["src", "components", "c.tsx"] ∧
      t.locate (componentDirectory s ['c']) = .ok ["src", "components", "c"] := by
  decide +kernel

end CanvasLift.Deletion
