import CanvasLift.Component.Template
import CanvasLift.Project.Extraction
import CanvasLift.Project.Manifest
import CanvasLift.Project.Settings

namespace CanvasLift

namespace Generation

inductive Origin
  | extracted
  | template
  deriving DecidableEq

def Origin.name : Origin → Text
  | .extracted => "extracted"
  | .template => "template"

inductive Fault
  | identifier (fault : Identifier.Fault)
  | write (target : Path) (refusal : Refusal)
  | file (fault : FileFault)
  deriving DecidableEq

def Fault.message : Fault → WideText
  | .identifier fault => fault.message
  | .write target refusal =>
    .ofText "Failed to write " ++ target.toText ++ .ofText (": " ++ refusal.reason)
  | .file fault => fault.message

def Fault.expected : Fault → Bool
  | .identifier _ | .write _ _ => true
  | .file _ => false

def buildSource (host : Host) (s : Settings) (id : Text) : Work (Text × Origin) := do
  match ← Extraction.run host id s.sourceDocument with
  | .ok source => return (source, .extracted)
  | .error fault =>
    note .info "orchestrator"
      (.ofText ("Extraction unavailable for " ++ id ++ "; using template fallback"))
    note .debug "orchestrator"
      (.ofText ("Extraction failure (" ++ (fault.kind?.getD "None") ++ "): ") ++ fault.message)
    return (Component.Template.fallback id, .template)

def writeFault (p : Path) : FileFault → Fault
  | .refused refusal _ => .write p refusal
  | fault => .file fault

/-- Writes a file, and makes the directories on the way to it that are missing. -/
def write (p : Path) (source : Text) : Attempt Fault Unit := do
  let (made, t) := (← get).tree.makeDirectories p.parent
  modify (Workspace.withTree · t)
  match made with
  | .error fault => throw (writeFault p fault)
  | .ok () =>
    change fun t ↦ match t.write p (Utf8.encode source) with
      | .ok t => .ok t
      | .error fault => .error (writeFault p fault)

def attempt (host : Host) (s : Settings) (given : Option Text) :
    Attempt Fault (Text × Origin) := do
  match Identifier.require given with
  | .error fault => throw (.identifier fault)
  | .ok id =>
    let (source, origin) ← buildSource host s id
    write (s.componentFile id) source
    return (id, origin)

def manifest (s : Settings) (id : Text) (origin : Origin) : Manifest where
  success := true
  files := [(s.componentFile id).toText]
  componentPath := some (s.relative (s.componentFile id))
  componentTag := some (.ofText ("<" ++ Identifier.componentName id ++ " />"))
  origin := some (.ofText origin.name)

def run (host : Host) (s : Settings) (given : Json) : Work Manifest := do
  match ← (attempt host s given.text?).run with
  | .ok (id, origin) =>
    note .info "orchestrator"
      (.ofText "Generated " ++ s.relative (s.componentFile id) ++ .ofText (" from " ++ origin.name))
    return manifest s id origin
  | .error fault =>
    let what := given.display
    if fault.expected then
      note .error "orchestrator" (.ofText ("Generation failed for " ++ what ++ ": ") ++ fault.message)
    else note .error "orchestrator" (.ofText ("Unexpected failure generating " ++ what))
    return .failure fault.message

end Generation

end CanvasLift
