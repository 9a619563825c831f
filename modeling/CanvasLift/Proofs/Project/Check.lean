import Mathlib.Control.Monad.Basic
import CanvasLift.Command.Run
import CanvasLift.Proofs.Component.Placeholder
import CanvasLift.Proofs.Except
import CanvasLift.Proofs.Files.Walk
import CanvasLift.Proofs.Project.Generation
import CanvasLift.Proofs.Text.Breaks
import CanvasLift.Proofs.Text.Utf8

namespace CanvasLift

open Component Generation

theorem Path.ofText_of_not_mem {name : Name} (hslash : .char '/' ∉ name) (hne : name ≠ [])
    (hdot : name ≠ [.char '.']) : ofText name = ⟨.here, [name]⟩ := by
  have hdrop : name.dropWhile (· = .char '/') = name := by
    cases name with
    | nil => rfl
    | cons c rest =>
      have hc : c ≠ .char '/' := fun heq ↦ hslash (heq ▸ List.mem_cons_self)
      exact List.dropWhile_cons_of_neg (by simpa using hc)
  have hanchor : splitAnchor name = (Anchor.here, name) := by
    rw [splitAnchor, hdrop, Nat.sub_self]
    rfl
  rw [ofText, hanchor]
  dsimp only
  rw [Text.splitOn_of_not_mem hslash]
  simp [hne, hdot]

namespace Settings

theorem componentEnding_eq : componentEnding = ['.', 't', 's', 'x'] := by decide

theorem suffix_componentFile (s : Settings) {id : Text} (hne : id ≠ []) :
    (s.componentFile id).suffix = WideText.ofText componentEnding := by
  have hname : (s.componentFile id).name =
      WideText.ofText id ++ [.char '.', .char 't', .char 's', .char 'x'] := by
    simp [componentFile, Path.child, Path.name, componentEnding_eq, WideText.ofText]
  rw [Path.suffix, hname, componentEnding_eq]
  simpa [WideText.ofText] using hne

end Settings

namespace Check

variable {s : Settings} {id : Text}

theorem target_eq_componentFile (s : Settings) (hid : ∀ c ∈ id, Identifier.isAllowed c = true) :
    target s id = s.componentFile id := by
  have hdot := Identifier.not_mem_of_isAllowed hid (c := '.') (by decide)
  have hslash := Identifier.not_mem_of_isAllowed hid (c := '/') (by decide)
  have hending : Text.endsWith Settings.componentEnding id = false := by
    rw [Bool.eq_false_iff]
    intro h
    have hsuffix : Settings.componentEnding <:+ id := List.isSuffixOf_iff_suffix.1 h
    rw [Settings.componentEnding_eq] at hsuffix
    exact hdot (hsuffix.mem List.mem_cons_self)
  have hname : Path.ofText (WideText.ofText (id ++ Settings.componentEnding)) =
      ⟨.here, [WideText.ofText (id ++ Settings.componentEnding)]⟩ := by
    apply Path.ofText_of_not_mem
    · simp [Settings.componentEnding_eq, hslash]
    · simp [Settings.componentEnding_eq, WideText.ofText]
    · intro heq
      have hlen := congrArg List.length heq
      simp [Settings.componentEnding_eq, WideText.ofText] at hlen
  simp only [target, hending, Bool.false_eq_true, if_false, hname]
  rfl

theorem verdictOf_of_placed {source : Text} {t u : Tree} {d : Location}
    (hplaced : Placed s id source t u d) :
    verdictOf u (s.componentFile id) =
      .ok (Completeness.classify (Text.unifyBreaks source)) := by
  have hread : u.read (s.componentFile id) = .ok (Utf8.encode source) :=
    Tree.read_eq_ok_iff.2 ⟨_, hplaced.file, hplaced.content⟩
  rw [verdictOf, hread]
  dsimp only
  rw [Utf8.decode_encode]

theorem exists_files_of_placed {source : Text} {t u : Tree} {d : Location} (hne : id ≠ [])
    (hplaced : Placed s id source t u d) :
    ∃ paths, files s u none = .ok paths ∧ s.componentFile id ∈ paths := by
  have hdir : u.isDirectory s.componentsDirectory = .ok true :=
    Tree.isDirectory_eq_true_iff.2 ⟨d, hplaced.directory, hplaced.isDirectory⟩
  have hfile : u.isFile (s.componentFile id) = .ok true :=
    Tree.isFile_eq_true_iff.2 ⟨_, _, hplaced.file, hplaced.content⟩
  refine ⟨_, by rw [files_none, componentFiles, hdir, hplaced.directory]; rfl, ?_⟩
  refine List.mem_append_right _ (List.mem_filter.2 ⟨?_, ?_⟩)
  · exact List.mem_map.2 ⟨_, Tree.mem_namesIn_iff.2 ⟨_, hplaced.content⟩, rfl⟩
  · simp [isComponentFile, hfile, Except.toOption, s.suffix_componentFile hne]

theorem files_of_placed {source : Text} {t u : Tree} {d : Location}
    (hid : ∀ c ∈ id, Identifier.isAllowed c = true) (hne : id ≠ [])
    (hplaced : Placed s id source t u d) : files s u (some id) = .ok [s.componentFile id] := by
  have hfile : u.isFile (s.componentFile id) = .ok true :=
    Tree.isFile_eq_true_iff.2 ⟨_, _, hplaced.file, hplaced.content⟩
  cases id with
  | nil => exact absurd rfl hne
  | cons c rest =>
    rw [files_cons, target_eq_componentFile s hid, hfile]
    rfl

theorem run_of_placed {source : Text} {t u : Tree} {d : Location}
    (hid : ∀ c ∈ id, Identifier.isAllowed c = true) (hne : id ≠ [])
    (hplaced : Placed s id source t u d) :
    run s u (some id) =
      .ok [(s.componentFile id, Completeness.classify (Text.unifyBreaks source))] := by
  have hverdict := verdictOf_of_placed hplaced
  simp only [run, files_of_placed hid hne hplaced, bind, Except.bind, List.mapM_cons, hverdict]
  rfl

theorem mem_report_iff {t : Tree} {component : Option Text} {r : Report} {paths : List Path}
    (hpaths : files s t component = .ok paths) (hr : run s t component = .ok r) {p : Path}
    {verdict : Verdict} : (p, verdict) ∈ r ↔ p ∈ paths ∧ verdictOf t p = .ok verdict := by
  rw [run, hpaths] at hr
  rw [mem_mapM_iff hr]
  constructor
  · intro h
    obtain ⟨q, hq, h⟩ := h
    cases hv : verdictOf t q with
    | error fault =>
      rw [hv] at h
      cases h
    | ok found =>
      rw [hv] at h
      cases h
      exact ⟨hq, hv⟩
  · intro h
    exact ⟨p, h.1, by rw [h.2]; rfl⟩

theorem exists_run_iff {t : Tree} {component : Option Text} {paths : List Path}
    (hpaths : files s t component = .ok paths) :
    (∃ r, run s t component = .ok r) ↔ ∀ p ∈ paths, ∃ verdict, verdictOf t p = .ok verdict := by
  simp only [run, hpaths, bind, Except.bind]
  rw [exists_mapM_iff]
  refine forall₂_congr fun p _ ↦ ?_
  cases verdictOf t p <;> simp [pure, Except.pure]

theorem Report.mem_stubs_iff {r : Report} {p : Path} : p ∈ r.stubs ↔ (p, Verdict.stub) ∈ r := by
  rw [Report.stubs, List.mem_map]
  constructor
  · intro h
    obtain ⟨⟨q, verdict⟩, hmem, rfl⟩ := h
    obtain ⟨hmem, hstub⟩ := List.mem_filter.1 hmem
    obtain rfl : verdict = .stub := of_decide_eq_true hstub
    exact hmem
  · exact fun h ↦ ⟨_, List.mem_filter.2 ⟨h, decide_eq_true rfl⟩, rfl⟩

theorem Report.stubs_singleton_eq_nil_iff {p : Path} {verdict : Verdict} :
    Report.stubs [(p, verdict)] = [] ↔ verdict ≠ .stub := by
  simp [Report.stubs]

end Check

namespace Command

def Outcome.Lists (o : Outcome) (s : Settings) (p : Path) : Prop :=
  o.ending = .ok 1 ∧ WideText.ofText "  - " ++ s.relative p <:+: o.err

namespace Run

variable {s : Settings} {id : Text}

theorem reportCheck_lists {r : Check.Report} {p : Path} (h : p ∈ r.stubs) :
    (reportCheck s r).Lists s p := by
  have hok : r.ok = false := by
    rw [Check.Report.ok]
    cases hr : r.stubs with
    | nil =>
      rw [hr] at h
      cases h
    | cons q rest => rfl
  have hline := List.mem_map_of_mem (f := (WideText.ofText "  - " ++ ·))
    (List.mem_map_of_mem (f := s.relative) h)
  rw [reportCheck, hok]
  exact ⟨rfl, (Text.infix_joinWith_of_mem hline).trans ⟨_, _, rfl⟩⟩

theorem reportCheck_ending_eq_zero_iff {r : Check.Report} :
    (reportCheck s r).ending = .ok 0 ↔ r.stubs = [] := by
  rw [reportCheck, Check.Report.ok]
  cases r.stubs with
  | nil => exact ⟨fun _ ↦ rfl, fun _ ↦ rfl⟩
  | cons p rest => exact ⟨fun h ↦ (Nat.one_ne_zero (Except.ok.inj h)).elim, fun h ↦ nomatch h⟩

theorem check_of_placed {source : Text} {t u : Tree} {d : Location}
    (hid : ∀ c ∈ id, Identifier.isAllowed c = true) (hne : id ≠ [])
    (hplaced : Placed s id source t u d) :
    check s u (some id) = reportCheck s
      [(s.componentFile id, Completeness.classify (Text.unifyBreaks source))] := by
  have hrun := Check.run_of_placed hid hne hplaced
  simp [check, checkFiles, hrun]

theorem check_none_of_isDirectory {t : Tree} (h : t.isDirectory s.componentsDirectory = .ok true) :
    check s t none = checkFiles s t none := by
  rw [check.eq_def, h]

theorem check_all_of_placed {source : Text} {t u : Tree} {d : Location} {r : Check.Report}
    (hplaced : Placed s id source t u d) (hr : Check.run s u none = .ok r) :
    check s u none = reportCheck s r := by
  have hdir : u.isDirectory s.componentsDirectory = .ok true :=
    Tree.isDirectory_eq_true_iff.2 ⟨d, hplaced.directory, hplaced.isDirectory⟩
  rw [check_none_of_isDirectory hdir, checkFiles, hr]

theorem check_lists_iff_of_placed {source : Text} {t u : Tree} {d : Location} {P : Prop}
    (hid : ∀ c ∈ id, Identifier.isAllowed c = true) (hne : id ≠ [])
    (hplaced : Placed s id source t u d) (hclean : '\r' ∉ source)
    (hstub : Completeness.classify source = .stub ↔ P) :
    ((check s u (some id)).Lists s (s.componentFile id) ↔ P) ∧
      ((check s u (some id)).ending = .ok 0 ↔ ¬ P) ∧
      ∃ paths, Check.files s u none = .ok paths ∧ s.componentFile id ∈ paths ∧
        ((∃ r, Check.run s u none = .ok r) ↔
          ∀ p ∈ paths, ∃ verdict, Check.verdictOf u p = .ok verdict) ∧
        ∀ r, Check.run s u none = .ok r →
          (s.componentFile id ∈ r.stubs ↔ P) ∧
          (P → (check s u none).Lists s (s.componentFile id)) := by
  have hread := Text.unifyBreaks_of_not_mem hclean
  have hcheck := check_of_placed hid hne hplaced
  rw [hread] at hcheck
  have hending : (check s u (some id)).ending = .ok 0 ↔ ¬ P := by
    rw [hcheck, reportCheck_ending_eq_zero_iff, Check.Report.stubs_singleton_eq_nil_iff, Ne, hstub]
  obtain ⟨paths, hpaths, hmem⟩ := Check.exists_files_of_placed hne hplaced
  refine ⟨⟨fun hlists ↦ ?_, fun hP ↦ ?_⟩, hending, paths, hpaths, hmem,
    Check.exists_run_iff hpaths, fun r hr ↦ ?_⟩
  · apply Classical.byContradiction
    intro hnot
    have hzero := hending.2 hnot
    rw [hlists.1] at hzero
    cases hzero
  · rw [hcheck, hstub.2 hP]
    exact reportCheck_lists (Check.Report.mem_stubs_iff.2 List.mem_cons_self)
  · have hstubs : s.componentFile id ∈ r.stubs ↔ P := by
      rw [Check.Report.mem_stubs_iff, Check.mem_report_iff hpaths hr,
        Check.verdictOf_of_placed hplaced, hread, ← hstub]
      exact ⟨fun h ↦ Except.ok.inj h.2, fun h ↦ ⟨hmem, congrArg Except.ok h⟩⟩
    refine ⟨hstubs, fun hP ↦ ?_⟩
    rw [check_all_of_placed hplaced hr]
    exact reportCheck_lists (hstubs.2 hP)

/-- A placeholder is recognized as one, and the check lists the file that was generated from it,
exactly where the id has no style word in it. -/
theorem check_lists_placeholder_iff (host : Host) (s : Settings) {given : Json} (t : Tree)
    (records : List Log.Record) {raw id : Text} (hraw : given.text? = some raw)
    (hid : Identifier.require (some raw) = .ok id) (hcurated : Template.curated? raw = none) :
    (Completeness.classify (Template.fallback raw) = .stub ↔ ¬ Template.HasStyleWord id) ∧
    let m := ((Generation.run host s given).run ⟨t, records, none⟩).1
    let u := ((Generation.run host s given).run ⟨t, records, none⟩).2.tree
    m.success = true → m.origin = some (.ofText Origin.template.name) →
      ((check s u (some id)).Lists s (s.componentFile id) ↔ ¬ Template.HasStyleWord id) ∧
      ((check s u (some id)).ending = .ok 0 ↔ Template.HasStyleWord id) ∧
      ∃ paths, Check.files s u none = .ok paths ∧ s.componentFile id ∈ paths ∧
        ((∃ r, Check.run s u none = .ok r) ↔
          ∀ p ∈ paths, ∃ verdict, Check.verdictOf u p = .ok verdict) ∧
        ∀ r, Check.run s u none = .ok r →
          (s.componentFile id ∈ r.stubs ↔ ¬ Template.HasStyleWord id) ∧
          (¬ Template.HasStyleWord id → (check s u none).Lists s (s.componentFile id)) := by
  have hallowed := Identifier.isAllowed_of_require hid
  obtain ⟨_, _, _, hne⟩ := Identifier.require_eq_ok_iff.1 hid
  have hstub := Template.classify_stub_eq_stub_iff hallowed hne
  have hraw' := Template.fallback_eq_stub hid hcurated
  refine ⟨hraw' ▸ hstub, fun hsuccess horigin ↦ ?_⟩
  obtain ⟨d, hplaced⟩ := Generation.exists_placed_of_template host s t records (hraw ▸ hid)
    hsuccess horigin
  generalize ((Generation.run host s given).run ⟨t, records, none⟩).2.tree = u at hplaced ⊢
  rw [Template.fallback_of_require hid, hraw'] at hplaced
  have hclean := Template.not_mem_stub hallowed (c := '\r') (by decide)
  have hchecked := check_lists_iff_of_placed hallowed hne hplaced hclean hstub
  rwa [Classical.not_not] at hchecked

def noComponents : Tree :=
  (Tree.empty.set ["src"] .directory).set ["src", "components"] .directory

theorem check_lists_placeholder_of_tile :
    let host : Host := .withYaml ⟨.root, []⟩ [] []
    let s := Settings.defaults ⟨.root, []⟩
    let id : Text := "tile"
    let given := Json.string (WideText.ofText id)
    let done := (Generation.run host s given).run ⟨noComponents, [], none⟩
    let u := done.2.tree
    let p := s.componentFile id
    (given.text? = some id ∧ Identifier.require (some id) = .ok id ∧
        Template.curated? id = none ∧ done.1.success = true ∧
        done.1.origin = some (.ofText Origin.template.name) ∧
        Check.run s u none = .ok [(p, .stub)]) ∧
      Completeness.classify (Template.fallback id) = .stub ∧ (check s u (some id)).Lists s p ∧
      p ∈ Check.Report.stubs [(p, .stub)] ∧ (check s u none).Lists s p := by
  intro host s id given done u p
  have hraw : given.text? = some id := by decide
  have hid : Identifier.require (some id) = .ok id := by decide
  have hcurated : Template.curated? id = none := by decide
  have hsuccess : done.1.success = true := by decide +kernel
  have horigin : done.1.origin = some (.ofText Origin.template.name) := by decide +kernel
  have hr : Check.run s u none = .ok [(p, .stub)] := by decide +kernel
  have hplain : ¬ Template.HasStyleWord id := by
    have hfree : (Pattern.oneOf Template.styleWords).occursIn id = false := by decide
    exact fun h ↦ Bool.eq_false_iff.1 hfree (Pattern.occursIn_oneOf.2 h)
  obtain ⟨hstub, hchecked⟩ :=
    check_lists_placeholder_iff host s noComponents [] hraw hid hcurated
  obtain ⟨hnamed, -, _, -, -, -, hall⟩ := hchecked hsuccess horigin
  obtain ⟨hmem, hlists⟩ := hall _ hr
  exact ⟨⟨hraw, hid, hcurated, hsuccess, horigin, hr⟩, hstub.2 hplain, hnamed.2 hplain,
    hmem.2 hplain, hlists hplain⟩

/-- The id of this placeholder is one of the style words, and it is taken for a full interface. -/
theorem check_passes_placeholder :
    let host : Host := .withYaml ⟨.root, []⟩ [] []
    let s := Settings.defaults ⟨.root, []⟩
    let id : Text := "bg-brandcolor"
    let given := Json.string (WideText.ofText id)
    let done := (Generation.run host s given).run ⟨noComponents, [], none⟩
    Identifier.require (some id) = .ok id ∧ Template.curated? id = none ∧
      Completeness.classify (Template.fallback id) = .complete ∧ done.1.success = true ∧
      done.1.origin = some (.ofText Origin.template.name) ∧
      (check s done.2.tree (some id)).ending = .ok 0 ∧
      (check s done.2.tree none).ending = .ok 0 := by
  decide +kernel

end Run

end Command

end CanvasLift
