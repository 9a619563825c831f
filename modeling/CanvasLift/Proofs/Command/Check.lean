import CanvasLift.Proofs.Command.Run
import CanvasLift.Proofs.Project.Listing

namespace CanvasLift

open Component

theorem Check.run_ne_noSuchFile {s : Settings} {t : Tree} {d : Location} {p : Path}
    (hd : t.locate s.componentsDirectory = .ok d) (hdir : t.get? d = some .directory) :
    run s t none ≠ .error (.noSuchFile p) := by
  intro h
  rw [run, files_of_directory hd hdir] at h
  obtain ⟨q, -, hq⟩ := exists_of_mapM_eq_error h
  rcases exceptBind_eq_error_iff.1 hq with hverdict | ⟨_, _, hpure⟩
  · rw [verdictOf] at hverdict
    split at hverdict
    · cases hverdict
    · split at hverdict <;> cases hverdict
  · cases hpure

namespace Command.Run

open Check (Checkable ComponentFile)

variable {around : Surroundings} {line : Line} {project : Text} {s : Settings} {t : Tree}
  {w : Workspace} {words : List Text} {d : Location}

def told (s : Settings) (names : List WideText) : Outcome :=
  if names = [] then .printed 0 "Component(s) have full UI.\n"
  else
    let lines := names.map fun name ↦
      WideText.ofText "  - " ++ s.relative (s.componentsDirectory.child name)
    .failed 1 (.ofText ("Component(s) are placeholder stubs. " ++
      "Copy the full UI from the canvas document for each type.\n\n") ++
      Text.joinWith (WideText.ofText "\n") lines ++ .ofText "\n")

theorem reportCheck_eq_told {r : Check.Report} {names : List WideText}
    (h : r.stubs = names.map s.componentsDirectory.child) : reportCheck s r = told s names := by
  rw [reportCheck, told, Check.Report.ok, Check.Report.stubPaths, h, List.map_map, List.map_map]
  cases names <;> rfl

theorem ending_told (s : Settings) (names : List WideText) :
    ∃ code, (told s names).ending = .ok code := by
  rw [told]
  split
  · exact ⟨0, rfl⟩
  · exact ⟨1, rfl⟩

section Directory

variable (hd : t.locate s.componentsDirectory = .ok d) (hdir : t.get? d = some .directory)
include hd hdir

theorem check_of_directory : check s t none = checkFiles s t none :=
  check_none_of_isDirectory (Tree.isDirectory_eq_true_iff.2 ⟨d, hd, hdir⟩)

theorem check_of_checkable (h : Checkable s t d) :
    check s t none = told s (Check.placeholders s t d) := by
  obtain ⟨r, hr⟩ := (Check.exists_run_iff_checkable hd hdir).2 h
  rw [check_of_directory hd hdir, checkFiles, hr]
  exact reportCheck_eq_told (Check.stubs_of_run hd hdir hr)

theorem ending_check_iff : (∃ code, (check s t none).ending = .ok code) ↔ Checkable s t d := by
  constructor
  · rintro ⟨code, hcode⟩
    rw [← Check.exists_run_iff_checkable hd hdir]
    cases hrun : Check.run s t none with
    | ok r => exact ⟨r, rfl⟩
    | error fault =>
      rw [check_of_directory hd hdir, checkFiles, hrun] at hcode
      cases fault with
      | noSuchFile p => exact absurd hrun (Check.run_ne_noSuchFile hd hdir)
      | file fault => cases hcode
      | encoding fault => cases hcode
  · intro h
    rw [check_of_checkable hd hdir h]
    exact ending_told s _

end Directory

/-- The check of all components ends with an exit code exactly where every name in their directory
can be looked up and every component file there holds text. It then lists the placeholders among
those files, in the order of their names, and fails if there are any. It changes nothing. -/
theorem check_decides_iff (hwords : Line.ofWords words = .ok line)
    (hopened : Opened around line t w) (hproject : line.project = .word project)
    (haction : line.action = .check none)
    (hsettings : Settings.loadResolved around.host w.tree (.ofText project) = .ok s)
    (hd : w.tree.locate s.componentsDirectory = .ok d)
    (hdir : w.tree.get? d = some .directory) :
    let done := ofWords around words t
    done.2 = w.tree ∧
      ((∃ code, done.1.ending = .ok code) ↔ Checkable s w.tree d) ∧
      (Checkable s w.tree d → ∃ names : List WideText,
        names.Pairwise (fun name other ↦ WideText.le name other = true ∧ name ≠ other) ∧
        (∀ name, name ∈ names ↔ ∃ content, ComponentFile s w.tree name (Utf8.encode content) ∧
          Completeness.classify (Text.unifyBreaks content) = .stub) ∧
        done.1 = told s names) := by
  have hrun : (perform around s line.action).run w = (check s w.tree none, w) := by
    rw [haction]
    rfl
  have hdone := ofWords_of_perform hwords hopened hproject hsettings hrun
  intro done
  rw [show done = _ from hdone]
  refine ⟨rfl, ending_check_iff hd hdir, fun h ↦ ?_⟩
  refine ⟨Check.placeholders s w.tree d, Check.pairwise_placeholders s w.tree d,
    fun name ↦ Check.mem_placeholders_iff hd, check_of_checkable hd hdir h⟩

def withComponent (bytes : Bytes) : Tree :=
  ((Tree.empty.set ["src"] .directory).set ["src", "components"] .directory).set
    ["src", "components", "tile.tsx"] (.file bytes)

theorem check_decides_iff_of_tile :
    let around : Surroundings :=
      ⟨.withYaml ⟨.root, []⟩ [] [], fun _ ↦ .answered [], 980, [], fun _ ↦ []⟩
    let s := Settings.defaults ⟨.root, []⟩
    let t := withComponent (Utf8.encode (Template.fallback "tile"))
    let d : Location := ["src", "components"]
    let line : Line := ⟨false, none, .word ".", .check none⟩
    let done := ofWords around ["check"] t
    (Line.ofWords ["check"] = .ok line ∧ Opened around line t (.ofTree t) ∧
        Settings.loadResolved around.host t (.ofText ".") = .ok s ∧
        t.locate s.componentsDirectory = .ok d ∧ t.get? d = some .directory) ∧
      done.2 = t ∧ Checkable s t d ∧ ∃ names : List WideText,
        names.Pairwise (fun name other ↦ WideText.le name other = true ∧ name ≠ other) ∧
        (∀ name, name ∈ names ↔ ∃ content, ComponentFile s t name (Utf8.encode content) ∧
          Completeness.classify (Text.unifyBreaks content) = .stub) ∧
        done.1 = told s names ∧ done.1.ending = .ok 1 := by
  intro around s t d line done
  have hwords : Line.ofWords ["check"] = .ok line := rfl
  have hopened : Opened around line t (.ofTree t) := .nothing rfl
  have hsettings : Settings.loadResolved around.host t (.ofText ".") = .ok s := rfl
  have hd : t.locate s.componentsDirectory = .ok d := by decide
  have hdir : t.get? d = some .directory := by decide
  have hending : done.1.ending = .ok 1 := by decide +kernel
  obtain ⟨htree, hiff, hlist⟩ := check_decides_iff hwords hopened rfl rfl hsettings hd hdir
  have hcheckable : Checkable s t d := hiff.1 ⟨1, hending⟩
  obtain ⟨names, hsorted, hmem, hdone⟩ := hlist hcheckable
  exact ⟨⟨hwords, hopened, hsettings, hd, hdir⟩, htree, hcheckable, names, hsorted, hmem, hdone,
    hending⟩

/-- A component file that is no text ends the check of all of them with a fault. -/
theorem check_escapes_of_bytes :
    let around : Surroundings :=
      ⟨.withYaml ⟨.root, []⟩ [] [], fun _ ↦ .answered [], 980, [], fun _ ↦ []⟩
    let done := ofWords around ["check"] (withComponent [255])
    done.1.ending = .error (.check (.encoding ⟨255, 0, 0, .startByte⟩)) := by
  decide +kernel

end Command.Run

end CanvasLift
