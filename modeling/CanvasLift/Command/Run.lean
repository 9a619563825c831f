import CanvasLift.Command.Line
import CanvasLift.Json.Printer
import CanvasLift.Project.Check
import CanvasLift.Project.Deletion
import CanvasLift.Project.Generation
import CanvasLift.Service.Client

/-!
Runs of the program: a command line is carried out on a file tree. The settings are loaded once the
logger is set up and the log file is open. The logger is left to the next run as it is then.
-/

namespace CanvasLift.Command

/-- What surrounds a run: the host, what comes of sending a request, how deep the reader of the replies
goes, the time that the log file shows, and what is told of how a record came to be that cannot be
written. -/
structure Surroundings where
  host : Host
  send : Client.Request → Client.Reply
  depth : Nat
  time : Text
  trace : Log.Record → Text

structure Serving where
  host : WideText
  portNumber : Int
  root : Path

inductive Fault
  /-- Nothing is given where there has to be a path, or the path of the log file. -/
  | noPath
  | noLogPath
  | log (fault : FileFault)
  | settings (fault : Settings.Fault)
  | client (fault : Client.Fault)
  | check (fault : Check.Fault)
  deriving DecidableEq

def Fault.message : Fault → WideText
  | .noPath => .ofText "expected str, bytes or os.PathLike object, not list"
  | .noLogPath => .ofText "'list' object has no attribute 'parent'"
  | .log fault => fault.message
  | .settings fault => fault.message
  | .client fault => fault.message
  | .check fault => fault.message

/-- What a run comes to: its exit code, unless a fault escapes; what it prints and what it complains
of; the request that was sent, and what is served from now on. -/
structure Outcome where
  ending : Except Fault Nat
  out : WideText
  err : WideText
  request : Option Client.Request
  serving : Option Serving

structure Session where
  logger : Log.Logger
  tree : Tree

namespace Outcome

def printed (code : Nat) (out : WideText) : Outcome := ⟨.ok code, out, [], none, none⟩

def failed (code : Nat) (err : WideText) : Outcome := ⟨.ok code, [], err, none, none⟩

def escaped (fault : Fault) : Outcome := ⟨.error fault, [], [], none, none⟩

def report (success : Bool) (value : Json) : Outcome :=
  printed (if success then 0 else 1) (.ofText (value.pretty ++ "\n"))

end Outcome

namespace Run

def reportExtraction (r : Except Extraction.Fault Text) : Outcome :=
  match r with
  | .ok source => .printed 0 source
  | .error fault =>
    .failed 1 (.ofText (programName ++ " extract failed: ") ++ fault.message ++ .ofText "\n")

/-- Extraction from the given document, which is looked at only for an id that can be used. -/
def extract (host : Host) (s : Settings) (id : Text) (document : Option Given) : Work Outcome := do
  match document with
  | none => return reportExtraction (← Extraction.request host (some id) s.sourceDocument)
  | some (.word t) => return reportExtraction (← Extraction.request host (some id) (.ofText t))
  | some .nothing =>
    match Identifier.require (some id) with
    | .ok _ => return .escaped .noPath
    | .error fault => return reportExtraction (.error (.identifier fault))

def reportManifest (m : Manifest) : Outcome := .report m.success m.toJson

def generate (host : Host) (s : Settings) (id : Text) : Work Outcome := do
  return reportManifest (← Generation.run host s (.string id))

def received (depth : Nat) (s : Settings) (reply : Client.Reply) : Outcome :=
  match Client.generated depth s.helper.baseUrl reply with
  | .ok m => reportManifest m
  | .error fault =>
    if fault.isUnavailable then
      .failed 1 (fault.message ++ .ofText ("\nStart it with `" ++ programName ++ " serve`.\n"))
    else .escaped (.client fault)

def generateRemotely (around : Surroundings) (s : Settings) (id : Text) : Outcome :=
  match Client.generateRequest s.helper.baseUrl s.helper.timeout (.string id) with
  | .ok request => { received around.depth s (around.send request) with request := some request }
  | .error fault => .escaped (.client fault)

def delete (s : Settings) (id : Text) : Work Outcome := do
  match ← Deletion.run s (.string id) with
  | .done deleted files => return .report true (Deletion.done deleted files).toJson
  | .failed message => return .report false (Deletion.failed message).toJson

def reportCheck (s : Settings) (r : Check.Report) : Outcome :=
  if r.ok then .printed 0 "Component(s) have full UI.\n"
  else
    let lines := (r.stubPaths s).map (WideText.ofText "  - " ++ ·)
    .failed 1 (.ofText ("Component(s) are placeholder stubs. " ++
      "Copy the full UI from the canvas document for each type.\n\n") ++
      Text.joinWith (WideText.ofText "\n") lines ++ .ofText "\n")

def checkFiles (s : Settings) (t : Tree) (component : Option Text) : Outcome :=
  match Check.run s t component with
  | .ok r => reportCheck s r
  | .error (.noSuchFile p) => .failed 2 ((Check.Fault.noSuchFile p).message ++ .ofText "\n")
  | .error fault => .escaped (.check fault)

def check (s : Settings) (t : Tree) (component : Option Text) : Outcome :=
  match component, t.isDirectory s.componentsDirectory with
  | none, .error fault => .escaped (.check (.file fault))
  | none, .ok false =>
    .printed 0 (.ofText "No components directory at " ++ s.relative s.componentsDirectory ++
      .ofText ".\n")
  | _, _ => checkFiles s t component

/-- Where the service is to listen. An empty host and the number zero stand for those of the settings. -/
def serving (s : Settings) (host : Option Text) (portNumber : Option Int) : Serving where
  host := ((host.filter (· ≠ [])).map .ofText).getD s.service.host
  portNumber := (portNumber.filter (· ≠ 0)).getD s.service.portNumber
  root := s.root

def serve (s : Settings) (host : Option Text) (portNumber : Option Int) : Outcome :=
  { Outcome.printed 0 [] with serving := some (serving s host portNumber) }

def perform (around : Surroundings) (s : Settings) : Action → Work Outcome
  | .extract id document => extract around.host s id document
  | .generate id remote =>
    if remote then return generateRemotely around s id else generate around.host s id
  | .delete id => delete s id
  | .check component => do return check s (← get).tree component
  | .serve host portNumber => return serve s host portNumber

/-- The fault with its path as seen by someone who wrote `p`, whether or not `p` is absolute. -/
def asWritten (host : Host) (p : Path) : FileFault → FileFault
  | .refused refusal q =>
    .refused refusal (if p.isAbsolute then q else ⟨.here, q.names.drop host.current.names.length⟩)
  | fault => fault

def ensureFile (t : Tree) (p : Path) : Except FileFault (Tree × Location) := do
  let l ← t.locate p
  match t.get? l with
  | some (.file _) => return (t, l)
  | some .directory => throw (.refused .isDirectory p)
  | none => return (t.set l (.file []), l)

/-- Opens a log file, and makes the directories on the way to it that are missing. What was made
before a fault stays. -/
def openLog (around : Surroundings) (name : Text) (t : Tree) : Except FileFault Location × Tree :=
  let p := Path.ofText name
  let (made, t) := t.makeDirectories (around.host.absolute p.parent)
  match made.mapError (asWritten around.host p) with
  | .error fault => (.error fault, t)
  | .ok () =>
    match ensureFile t (around.host.collapsed p) with
    | .error fault => (.error fault, t)
    | .ok (t, l) => (.ok l, t)

def fromSettings (around : Surroundings) (line : Line) : Work Outcome := do
  match line.project with
  | .nothing => return .escaped .noPath
  | .word project =>
    match Settings.loadResolved around.host (← get).tree (.ofText project) with
    | .ok s => perform around s line.action
    | .error fault =>
      match fault with
      | .malformed _ | .notMapping => return .failed 1 (.ofText (fault.message ++ "\n"))
      | _ => return .escaped (.settings fault)

def consoleLevel (line : Line) : Log.Level := if line.verbose then .debug else .info

def setUp (around : Surroundings) (line : Line) (p : Session) : Except Fault Unit × Session :=
  let console := p.logger.configured (consoleLevel line) none
  match line.logFile with
  | none => (.ok (), ⟨console, p.tree⟩)
  | some .nothing => (.error .noLogPath, ⟨console, p.tree⟩)
  | some (.word name) =>
    match openLog around name p.tree with
    | (.ok l, t) => (.ok (), ⟨p.logger.configured (consoleLevel line) (some l), t⟩)
    | (.error fault, t) => (.error (.log fault), ⟨console, t⟩)

def inSession (around : Surroundings) (words : List Text) (p : Session) : Outcome × Session :=
  match Line.ofWords words with
  | .error (.help text) => (.printed 0 text, p)
  | .error (.misuse text) => (.failed 2 text, p)
  | .ok line =>
    match setUp around line p with
    | (.error fault, p) => (.escaped fault, p)
    | (.ok (), p) =>
      let (o, w) := (fromSettings around line).run (.started p.tree p.logger around.time)
      ({ o with err := p.logger.shown around.trace w.records ++ o.err }, ⟨p.logger, w.tree⟩)

def ofWords (around : Surroundings) (words : List Text) (t : Tree) : Outcome × Tree :=
  let (o, p) := inSession around words ⟨.initial, t⟩
  (o, p.tree)

end Run

end CanvasLift.Command
