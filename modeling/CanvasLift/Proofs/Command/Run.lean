import CanvasLift.Command.Run
import CanvasLift.Proofs.Project.Log
import CanvasLift.Proofs.Project.Workspace

/-!
Runs by their stages. Once the log file is open, if there is one, what a run comes to is decided by
the settings of its project: by the action on them, or by the fault that keeps them from being loaded.
It does not matter which runs the session has had before.
-/

namespace CanvasLift.Command.Run

variable {around : Surroundings} {s : Settings} {t : Tree} {line : Line} {project : Text}
  {words : List Text} {w : Workspace} {fault : Settings.Fault}

def logging (around : Surroundings) (line : Line) (l : Location) (t : Tree) : Workspace :=
  .started t (Log.Logger.initial.configured (consoleLevel line) (some l)) around.time

/-- What a run works on when it loads its settings. -/
inductive Opened (around : Surroundings) (line : Line) (t : Tree) : Workspace → Prop
  | nothing (h : line.logFile = none) : Opened around line t (.ofTree t)
  | log {name : Text} {l : Location} {u : Tree} (h : line.logFile = some (.word name))
    (hopen : openLog around name t = (.ok l, u)) : Opened around line t (logging around line l u)

theorem Opened.records_eq_nil (h : Opened around line t w) : w.records = [] := by
  cases h <;> rfl

theorem started_none (g : Log.Logger) (least : Log.Level) (t : Tree) (time : Text) :
    Workspace.started t (g.configured least none) time = .ofTree t := by
  rw [Workspace.started, Log.Logger.writesFiles_configured]
  rfl

theorem Opened.setUp (h : Opened around line t w) (g : Log.Logger) :
    ∃ file u, setUp around line ⟨g, t⟩ =
        (.ok (), ⟨g.configured (consoleLevel line) file, u⟩) ∧
      w = .started u (g.configured (consoleLevel line) file) around.time := by
  cases h with
  | nothing h =>
    refine ⟨none, t, ?_, (started_none g _ t _).symm⟩
    rw [Run.setUp, h]
  | @log name l u h hopen =>
    refine ⟨some l, u, ?_, ?_⟩
    · rw [Run.setUp, h]
      dsimp only
      rw [hopen]
    · rw [logging, Log.Logger.configured_eq]

/-- The logger of a run that works on `w`. -/
def loggerOf (line : Line) (w : Workspace) : Log.Logger :=
  match w.logFiles with
  | some f => f.logger
  | none => Log.Logger.initial.configured (consoleLevel line) none

theorem loggerOf_started (line : Line) (g : Log.Logger) (file : Option Location) (t : Tree)
    (time : Text) :
    loggerOf line (.started t (g.configured (consoleLevel line) file) time) =
      g.configured (consoleLevel line) file := by
  rw [loggerOf, Workspace.started, Log.Logger.writesFiles_configured]
  cases file with
  | none => exact Log.Logger.configured_eq _ _ _ none
  | some l => rfl

/-- The outcome of a run that works on `w`, with all that is shown of its records. -/
def shown (around : Surroundings) (line : Line) (w : Workspace) (r : Outcome × Workspace) :
    Outcome × Tree :=
  ({ r.1 with err := (loggerOf line w).shown around.trace r.2.records ++ r.1.err }, r.2.tree)

theorem shown_of_records {r : Outcome × Workspace} (h : r.2.records = []) :
    shown around line w r = (r.1, r.2.tree) := by
  rw [shown, h]
  rfl

theorem inSession_of_opened (hwords : Line.ofWords words = .ok line) (h : Opened around line t w)
    (g : Log.Logger) :
    let done := inSession around words ⟨g, t⟩
    (done.1, done.2.tree) = shown around line w ((fromSettings around line).run w) := by
  obtain ⟨file, u, hsetUp, rfl⟩ := h.setUp g
  rw [inSession, hwords]
  dsimp only
  rw [hsetUp, shown, loggerOf_started]
  rfl

theorem ofWords_of_opened (hwords : Line.ofWords words = .ok line)
    (h : Opened around line t w) :
    ofWords around words t = shown around line w ((fromSettings around line).run w) :=
  inSession_of_opened hwords h .initial

theorem fromSettings_of_settings (hproject : line.project = .word project)
    (hsettings : Settings.loadResolved around.host w.tree (.ofText project) = .ok s) :
    (fromSettings around line).run w = (perform around s line.action).run w := by
  rw [fromSettings, hproject]
  simp only [StateT.run_bind, StateT.run_get, pure_bind]
  rw [hsettings]

theorem ofWords_of_perform {o : Outcome} (hwords : Line.ofWords words = .ok line)
    (hopened : Opened around line t w) (hproject : line.project = .word project)
    (hsettings : Settings.loadResolved around.host w.tree (.ofText project) = .ok s)
    (hrun : (perform around s line.action).run w = (o, w)) :
    ofWords around words t = (o, w.tree) := by
  rw [ofWords_of_opened hwords hopened, fromSettings_of_settings hproject hsettings, hrun,
    shown_of_records hopened.records_eq_nil]

theorem ofWords_of_settings (hwords : Line.ofWords words = .ok line)
    (hlog : line.logFile = none) (hproject : line.project = .word project)
    (hsettings : Settings.loadResolved around.host t (.ofText project) = .ok s) :
    ofWords around words t =
      shown around line (.ofTree t) ((perform around s line.action).run (.ofTree t)) := by
  rw [ofWords_of_opened hwords (.nothing hlog)]
  exact congrArg (shown around line (.ofTree t)) (fromSettings_of_settings hproject hsettings)

def unsettled : Settings.Fault → Outcome
  | .malformed problem => .failed 1 (.ofText ((Settings.Fault.malformed problem).message ++ "\n"))
  | .notMapping => .failed 1 (.ofText (Settings.Fault.notMapping.message ++ "\n"))
  | fault => .escaped (.settings fault)

theorem fromSettings_of_fault (hproject : line.project = .word project)
    (hfault : Settings.loadResolved around.host w.tree (.ofText project) = .error fault) :
    (fromSettings around line).run w = (unsettled fault, w) := by
  rw [fromSettings, hproject]
  simp only [StateT.run_bind, StateT.run_get, pure_bind]
  rw [hfault]
  cases fault <;> rfl

theorem ofWords_of_fault (hwords : Line.ofWords words = .ok line)
    (hopened : Opened around line t w) (hproject : line.project = .word project)
    (hfault : Settings.loadResolved around.host w.tree (.ofText project) = .error fault) :
    ofWords around words t = (unsettled fault, w.tree) := by
  rw [ofWords_of_opened hwords hopened, fromSettings_of_fault hproject hfault,
    shown_of_records hopened.records_eq_nil]

end CanvasLift.Command.Run
