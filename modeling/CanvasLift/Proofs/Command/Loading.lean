import CanvasLift.Proofs.Command.Run
import CanvasLift.Proofs.Project.Settings
import Mathlib.Control.Monad.Basic

namespace CanvasLift.Command.Run

variable {around : Surroundings} {line : Line} {project : Text} {t u : Tree} {words : List Text}
  {w : Workspace} {fault : Settings.Fault} {p q file : Path} {bytes : Bytes}

/-- No fault of the settings ends the run. -/
def PastSettings (o : Outcome) : Prop := ∀ fault, o.ending ≠ .error (.settings fault)

theorem pastSettings_reportExtraction (r : Except Extraction.Fault Text) :
    PastSettings (reportExtraction r) := by
  intro fault h
  cases r <;> cases h

theorem pastSettings_extract (host : Host) (s : Settings) (id : Text) (document : Option Given)
    (w : Workspace) : PastSettings ((extract host s id document).run w).1 := by
  rcases document with - | t | -
  · exact pastSettings_reportExtraction _
  · exact pastSettings_reportExtraction _
  · dsimp only [extract]
    cases Identifier.require (some id) with
    | ok safe =>
      intro fault h
      cases h
    | error fault => exact pastSettings_reportExtraction _

theorem pastSettings_delete (s : Settings) (id : Text) (w : Workspace) :
    PastSettings ((delete s id).run w).1 := by
  rw [delete, StateT.run_bind]
  dsimp only [bind]
  intro fault h
  split at h <;> cases h

theorem pastSettings_generateRemotely (around : Surroundings) (s : Settings) (id : Text) :
    PastSettings (generateRemotely around s id) := by
  intro fault h
  rw [generateRemotely] at h
  split at h
  · dsimp only [received] at h
    split at h
    · cases h
    · split at h <;> cases h
  · cases h

theorem pastSettings_check (s : Settings) (t : Tree) (component : Option Text) :
    PastSettings (check s t component) := by
  have hfiles : PastSettings (checkFiles s t component) := by
    intro fault h
    rw [checkFiles] at h
    split at h
    · rw [reportCheck] at h
      split at h <;> cases h
    · cases h
    · cases h
  rw [check.eq_def]
  split
  · intro fault h
    cases h
  · intro fault h
    cases h
  · exact hfiles

theorem pastSettings_perform (around : Surroundings) (s : Settings) (action : Action) (w : Workspace) :
    PastSettings ((perform around s action).run w).1 := by
  cases action with
  | extract id document => exact pastSettings_extract around.host s id document w
  | generate id remote =>
    cases remote with
    | true => exact pastSettings_generateRemotely around s id
    | false =>
      intro fault h
      cases h
  | delete id => exact pastSettings_delete s id w
  | check component => exact pastSettings_check s w.tree component
  | serve host portNumber =>
    intro fault h
    cases h

theorem pastSettings_unsettled_iff : PastSettings (unsettled fault) ↔ fault.IsReported := by
  constructor
  · intro h
    cases fault with
    | malformed problem => exact .inl ⟨problem, rfl⟩
    | notMapping => exact .inr rfl
    | _ => exact absurd rfl (h _)
  · rintro (⟨problem, rfl⟩ | rfl) fault h
    · cases h
    · cases h

theorem unsettled_of_isReported (h : fault.IsReported) :
    unsettled fault = .failed 1 (.ofText (fault.message ++ "\n")) := by
  rcases h with ⟨problem, rfl⟩ | rfl <;> rfl

theorem pastSettings_ofWords {s : Settings} (hwords : Line.ofWords words = .ok line)
    (hopened : Opened around line t w) (hproject : line.project = .word project)
    (hsettings : Settings.loadResolved around.host w.tree (.ofText project) = .ok s) :
    PastSettings (ofWords around words t).1 := by
  rw [ofWords_of_opened hwords hopened, fromSettings_of_settings hproject hsettings]
  exact pastSettings_perform around s line.action w

/-- Contents of the settings file lead to settings, or to a fault that is told as one of the settings,
exactly where they are readable. The settings are then the given values, and else the defaults. A run
ends with the message of a fault that is told; any other one escapes from it. -/
theorem load_reported_iff (around : Surroundings)
    (hfile : Settings.locate around.host t p = .ok file) (hbytes : t.read file = .ok bytes) :
    let loaded := Settings.load around.host t p
    (((∃ s, loaded = .ok s) ∨ ∃ fault, loaded = .error fault ∧ fault.IsReported) ↔
      ¬ Settings.Unreadable around.host bytes) ∧
    (∀ s, loaded = .ok s → ∃ content m, bytes = Utf8.encode content ∧
      Settings.documentOf around.host (Text.unifyBreaks content) = .ok m ∧
      Settings.Settled around.host file.parent m s) ∧
    ∀ words line project q u w, Line.ofWords words = .ok line → line.project = .word project →
      around.host.expand? (.ofText project) = some q → around.host.resolve q = .ok p →
      Opened around line u w → w.tree = t →
        let done := ofWords around words u
        (PastSettings done.1 ↔ ¬ Settings.Unreadable around.host bytes) ∧
        ∀ fault, loaded = .error fault → fault.IsReported →
          done = (.failed 1 (.ofText (fault.message ++ "\n")), t) := by
  intro loaded
  refine ⟨Settings.exists_load_iff hfile hbytes,
    fun s hs ↦ (Settings.settled_of_load hfile hbytes hs).2, ?_⟩
  rintro words line project q u w hwords hproject hexpand hresolve hopened rfl
  have hload : Settings.loadResolved around.host w.tree (.ofText project) = loaded :=
    Settings.loadResolved_eq_load hexpand hresolve
  cases hloaded : loaded with
  | ok s =>
    have hreadable := (Settings.settled_of_load hfile hbytes hloaded).1
    have hpast := pastSettings_ofWords hwords hopened hproject (hload.trans hloaded)
    exact ⟨⟨fun _ ↦ hreadable, fun _ ↦ hpast⟩, fun fault h ↦ nomatch h⟩
  | error fault =>
    rw [ofWords_of_fault hwords hopened hproject (hload.trans hloaded)]
    dsimp only
    rw [pastSettings_unsettled_iff, Settings.unreadable_iff_of_load hfile hbytes hloaded,
      Classical.not_not]
    refine ⟨Iff.rfl, ?_⟩
    rintro _ ⟨⟩ hreported
    rw [unsettled_of_isReported hreported]

def settingsAlone (content : Text) : Tree :=
  Tree.empty.set [Settings.fileName] (.file (Utf8.encode content))

theorem load_reported_of_list :
    let around : Surroundings :=
      ⟨.withYaml ⟨.root, []⟩ [] [], fun _ ↦ .answered [], 980, [], fun _ ↦ []⟩
    let content : Text := "- a\n"
    let t := settingsAlone content
    let p : Path := ⟨.root, []⟩
    let line : Line := ⟨false, none, .word ".", .check none⟩
    (around.host.expand? (.ofText ".") = some ⟨.here, []⟩ ∧
        around.host.resolve ⟨.here, []⟩ = .ok p ∧
        Settings.locate around.host t p = .ok ⟨.root, [Settings.fileName]⟩ ∧
        t.read ⟨.root, [Settings.fileName]⟩ = .ok (Utf8.encode content) ∧
        Settings.load around.host t p = .error .notMapping ∧
        Line.ofWords ["check"] = .ok line ∧ Opened around line t (.ofTree t)) ∧
      ¬ Settings.Unreadable around.host (Utf8.encode content) ∧
      ofWords around ["check"] t =
        (.failed 1 (.ofText (Settings.Fault.notMapping.message ++ "\n")), t) := by
  intro around content t p line
  have hexpand : around.host.expand? (.ofText ".") = some ⟨.here, []⟩ := rfl
  have hresolve : around.host.resolve ⟨.here, []⟩ = .ok p := rfl
  have hfile : Settings.locate around.host t p = .ok ⟨.root, [Settings.fileName]⟩ := by
    decide +kernel
  have hbytes : t.read ⟨.root, [Settings.fileName]⟩ = .ok (Utf8.encode content) := by
    decide +kernel
  have hload : Settings.load around.host t p = .error .notMapping := by
    have hfault : (Settings.load around.host t p).map (fun _ ↦ ()) = .error .notMapping := by
      decide +kernel
    cases h : Settings.load around.host t p with
    | ok s =>
      rw [h] at hfault
      cases hfault
    | error fault =>
      rw [h] at hfault
      exact congrArg Except.error (Except.error.inj hfault)
  have hwords : Line.ofWords ["check"] = .ok line := rfl
  have hopened : Opened around line t (.ofTree t) := .nothing rfl
  obtain ⟨hiff, -, hruns⟩ := load_reported_iff around hfile hbytes
  refine ⟨⟨hexpand, hresolve, hfile, hbytes, hload, hwords, hopened⟩, ?_, ?_⟩
  · exact hiff.1 (.inr ⟨_, hload, .inr rfl⟩)
  · exact (hruns _ line _ _ t _ hwords rfl hexpand hresolve hopened rfl).2 _ hload (.inr rfl)

/-- A timeout that is rounded beyond the finite numbers ends the run with a fault that escapes, though
the document can be read. -/
theorem timeout_escapes :
    let around : Surroundings :=
      ⟨.withYaml ⟨.root, []⟩ [] [], fun _ ↦ .answered [], 980, [], fun _ ↦ []⟩
    let content : Text := "helper:\n  request_timeout: 1" ++ List.replicate 309 '0' ++ "\n"
    let done := ofWords around ["check"] (settingsAlone content)
    (Yaml.Value.ofText Settings.levels content).isOk = true ∧
      done.1.ending = .error (.settings .beyondBinary64) := by
  decide +kernel

end CanvasLift.Command.Run
