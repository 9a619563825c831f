import CanvasLift.Component.References
import CanvasLift.Files.Walk
import CanvasLift.Identifier
import CanvasLift.Json
import CanvasLift.Project.Settings
import CanvasLift.Project.Workspace

/-!
Deletion of a component: its file, its directory, and the references to it in the source files of the
project. All revisions are computed before any file is touched.
-/

namespace CanvasLift

inductive Deletion
  | done (deleted : Bool) (updatedFiles : List WideText)
  | failed (error : Option Text)
  deriving DecidableEq

namespace Deletion

inductive Fault
  | identifier (fault : Identifier.Fault)
  | file (fault : FileFault)
  deriving DecidableEq

def Fault.message : Fault → Text
  | .identifier fault => fault.message
  | .file fault => fault.message

def toJson : Deletion → Json
  | done deleted updatedFiles =>
    .object [("success", .bool true), ("deleted", .bool deleted),
      ("updatedFiles", Json.texts updatedFiles)]
  | failed error => .object [("success", .bool false), ("error", .ofText? error)]

def sourceEndings : List Text := [".tsx", ".ts", ".jsx", ".js"]

def isSourceName (name : Name) : Bool := sourceEndings.any fun ending ↦ WideText.endsWith ending name

def isSearched (name : Name) : Bool :=
  name ≠ WideText.ofText "node_modules" && name.head? ≠ some (.char '.')

def sourcePath (s : Settings) (names : List Name) : Path := s.sourceDirectory.join ⟨.here, names⟩

/-- A walk passes over a directory whose path is too long to list it. -/
def isListed (directory : Path) : Bool :=
  directory.toText.bytes.length < Tree.pathLimit

def sourceFiles (s : Settings) (t : Tree) : Except FileFault (List Path) := do
  if !(← t.isDirectory s.sourceDirectory) then return []
  let top ← t.locate s.sourceDirectory
  let files := (t.walk top isSearched).filter fun names ↦
    isSourceName (names.getLastD []) && isListed (sourcePath s names).parent
  return files.map (sourcePath s)

def componentDirectory (s : Settings) (id : Text) : Path := s.componentsDirectory.child id

/-- The component's own files, which are not revised. -/
def isOwn (s : Settings) (id : Text) (p : Path) : Bool :=
  p = s.componentFile id ||
    ((componentDirectory s id).below? p).any fun names ↦ !names.isEmpty

def revised? (s : Settings) (id : Text) (p : Path) : Attempt Fault (Option Text) := do
  match ← look fun t ↦ (t.read p).mapError Fault.file with
  | bytes =>
    match Utf8.decode bytes with
    | .error _ =>
      note .warning "remover" (.ofText "Skipping " ++ s.relative p ++ .ofText ": not valid UTF-8")
      return none
    | .ok decoded =>
      let content := Text.unifyBreaks decoded
      let stripped := Component.References.strip id content
      return if stripped = content then none else some stripped

def revisions (s : Settings) (id : Text) : List Path → Attempt Fault (List (Path × Text))
  | [] => return []
  | p :: rest => do
    if isOwn s id p then revisions s id rest
    else
      let new ← revised? s id p
      let more ← revisions s id rest
      return (new.map fun text ↦ (p, text)).toList ++ more

def applyRevisions (s : Settings) (id : Text) : List (Path × Text) → Attempt Fault (List WideText)
  | [] => return []
  | (p, text) :: rest => do
    change fun t ↦ (t.write p (Utf8.encode text)).mapError Fault.file
    note .debug "remover" (.ofText ("Removed references to " ++ id ++ " from ") ++ p.toText)
    return s.relative p :: (← applyRevisions s id rest)

def removeIf (test : Tree → Path → Except FileFault Bool) (p : Path) : Attempt Fault Bool := do
  if ← look fun t ↦ (test t p).mapError Fault.file then
    change fun t ↦ ((t.locate p).map t.remove).mapError Fault.file
    return true
  else return false

def truthText (b : Bool) : Text := if b then "True" else "False"

def remove (s : Settings) (id : Text) : Attempt Fault Deletion := do
  let files ← look fun t ↦ (sourceFiles s t).mapError Fault.file
  let updated ← applyRevisions s id (← revisions s id files)
  let file ← removeIf Tree.isFile (s.componentFile id)
  let directory ← removeIf Tree.isDirectory (componentDirectory s id)
  let deleted := file || directory
  note .info "remover" (.ofText ("Deleted component " ++ id ++ " (removed=" ++ truthText deleted ++
    ", updated " ++ Text.ofNat updated.length ++ " files)"))
  return .done deleted updated

def run (s : Settings) (given : Json) : Work Deletion := do
  match Identifier.require given.text? with
  | .error fault => return .failed (some fault.message)
  | .ok id =>
    match ← (remove s id).run with
    | .ok report => return report
    | .error fault =>
      note .error "orchestrator"
        (.ofText ("Deletion failed for " ++ given.display ++ ": " ++ fault.message))
      return .failed (some fault.message)

end Deletion

end CanvasLift
