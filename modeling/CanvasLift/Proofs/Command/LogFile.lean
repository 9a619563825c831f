import CanvasLift.Proofs.Command.Run
import CanvasLift.Proofs.Command.Switch
import CanvasLift.Proofs.Files.Growth
import CanvasLift.Proofs.Project.Entries
import CanvasLift.Proofs.Project.LogFile
import CanvasLift.Proofs.Project.Reach

namespace CanvasLift

namespace Command

def Action.reaches (host : Host) (s : Settings) : Action → List Reach
  | .extract id none => Extraction.reaches host (some id) s.sourceDocument
  | .extract id (some (.word t)) => Extraction.reaches host (some id) (.ofText t)
  | .extract _ (some .nothing) => []
  | .generate id remote =>
    if remote then [] else Generation.reaches host s (Json.string id).text?
  | .delete id => Deletion.reaches s (Json.string id).text?
  | .check component => Check.reaches s component
  | .serve _ _ => []

def Session.after (p : Session) (history : List (Surroundings × List Text)) : Session :=
  history.foldl (fun p run ↦ (Run.inSession run.1 run.2 p).2) p

namespace Run

/-- What is reached by a line from the tree that it is run on: its settings, and what its action
reaches with them. -/
def reaches (around : Surroundings) (line : Line) (t : Tree) : List Reach :=
  match line.project with
  | .nothing => []
  | .word project =>
    Settings.reaches around.host t (.ofText project) ++
      match Settings.loadResolved around.host t (.ofText project) with
      | .ok s => line.action.reaches around.host s
      | .error _ => []

variable {around : Surroundings} {s : Settings} {t u : Tree} {line : Line} {name : Text}
  {used : Location → Prop} {R : Workspace → Workspace → Prop} {w w' : Workspace} {l m : Location}
  {p : Session}

section Together

variable (h : Lockstep used R)
include h

end Together

end Run

end Command

end CanvasLift
