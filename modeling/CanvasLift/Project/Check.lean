import CanvasLift.Component.Completeness
import CanvasLift.Files.Walk
import CanvasLift.Project.Settings

namespace CanvasLift

namespace Check

open Component

abbrev Report := List (Path × Verdict)

inductive Fault
  | noSuchFile (path : Path)
  | file (fault : FileFault)
  | encoding (fault : Utf8.Fault)
  deriving DecidableEq

def Fault.message : Fault → WideText
  | .noSuchFile path => .ofText "File not found: " ++ path.toText
  | .file fault => fault.message
  | .encoding fault => fault.message

def target (s : Settings) (component : Text) : Path :=
  let ending := Settings.componentEnding
  let name := if Text.endsWith ending component then component else component ++ ending
  s.componentsDirectory.join (.ofText name)

def verdictOf (t : Tree) (p : Path) : Except Fault Verdict :=
  match t.read p with
  | .error fault => .error (.file fault)
  | .ok bytes =>
    match Utf8.decode bytes with
    | .error fault => .error (.encoding fault)
    | .ok content => .ok (Completeness.classify (Text.unifyBreaks content))

def liftFile {α : Type} (r : Except FileFault α) : Except Fault α := r.mapError Fault.file

/-- Whether the path of a place is too long to look it up. -/
def isOutOfReach (t : Tree) (p : Path) : Bool := !(t.isFile p).isOk

def isComponentFile (t : Tree) (p : Path) : Bool :=
  (t.isFile p).toOption = some true && p.suffix = WideText.ofText Settings.componentEnding

/-- The component files of a project by name; none where it has no directory for them. All that is in
the directory is looked up before any file is read, so what is out of reach there comes first. -/
def componentFiles (s : Settings) (t : Tree) : Except Fault (List Path) := do
  if !(← liftFile (t.isDirectory s.componentsDirectory)) then return []
  let top ← liftFile (t.locate s.componentsDirectory)
  let inside := (t.namesIn top).map s.componentsDirectory.child
  return inside.filter (isOutOfReach t) ++ inside.filter (isComponentFile t)

def files (s : Settings) (t : Tree) (component : Option Text) : Except Fault (List Path) :=
  match component with
  | none | some [] => componentFiles s t
  | some name => do
    if ← liftFile (t.isFile (target s name)) then return [target s name]
    else .error (.noSuchFile (target s name))

theorem files_none (s : Settings) (t : Tree) : files s t none = componentFiles s t := rfl

theorem files_cons (s : Settings) (t : Tree) (c : Char) (rest : Text) :
    files s t (some (c :: rest)) = (do
      if ← liftFile (t.isFile (target s (c :: rest))) then return [target s (c :: rest)]
      else .error (.noSuchFile (target s (c :: rest)))) := rfl

def run (s : Settings) (t : Tree) (component : Option Text) : Except Fault Report := do
  (← files s t component).mapM fun p ↦ do return (p, ← verdictOf t p)

namespace Report

def stubs (r : Report) : List Path :=
  (r.filter fun (_, verdict) ↦ verdict = .stub).map (·.1)

def ok (r : Report) : Bool := (stubs r).isEmpty

def stubPaths (s : Settings) (r : Report) : List WideText := (stubs r).map s.relative

end Report

end Check

end CanvasLift
