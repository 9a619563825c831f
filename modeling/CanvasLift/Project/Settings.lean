import CanvasLift.Files.Host
import CanvasLift.Number.Shortest
import CanvasLift.Text.Blank
import CanvasLift.Yaml.Value

/-!
The settings of a project, read from the file `.canvasgen.yml` at its root. A setting that is absent,
empty or of an unusable type keeps its default.
-/

namespace CanvasLift

structure ServiceAddress where
  baseUrl : WideText
  timeout : Option Binary64

structure Binding where
  host : WideText
  portNumber : Int

structure Settings where
  root : Path
  sourceDocument : Path
  sourceDirectory : Path
  componentsDirectory : Path
  helper : ServiceAddress
  service : Binding

namespace Settings

inductive Fault
  | malformed (problem : Text)
  | notMapping
  | noHome (user : Option FileFault)
  | value (fault : Yaml.Fault)
  | beyondBinary64
  | unprintable
  | file (fault : FileFault)
  | encoding (fault : Utf8.Fault)
  deriving DecidableEq

def fileName : Text := ".canvasgen.yml"

def Fault.message : Fault → Text
  | .malformed problem => "Failed to parse " ++ fileName ++ ": " ++ problem
  | .notMapping => fileName ++ " must contain a mapping at the root"
  | .noHome user => (user.map FileFault.message).getD "Could not determine home directory."
  | .value fault => fault.message []
  | .beyondBinary64 => Number.Fault.beyondBinary64.message
  | .unprintable =>
    "Exceeds the limit (" ++ Text.ofNat Number.digitLimit ++
      " digits) for integer string conversion; use sys.set_int_max_str_digits() to increase the limit"
  | .file fault => fault.message
  | .encoding fault => fault.message

def defaultHelper : ServiceAddress := ⟨"http://localhost:4202", none⟩

def defaultService : Binding := ⟨"127.0.0.1", 4202⟩

def defaults (root : Path) : Settings where
  root
  sourceDocument := root.join (.ofText "src/pages/CanvasPage.tsx")
  sourceDirectory := root.join (.ofText "src")
  componentsDirectory := root.join (.ofText "src/components")
  helper := defaultHelper
  service := defaultService

/-- A path as seen from the root of the project, in full when it lies elsewhere. -/
def relative (s : Settings) (p : Path) : WideText := s.root.relativeTo p

def componentEnding : Text := ".tsx"

def componentFile (s : Settings) (id : Text) : Path :=
  s.componentsDirectory.child (.ofText (id ++ componentEnding))

theorem append_componentEnding_ne_up (stem : WideText) :
    stem ++ WideText.ofText componentEnding ≠ Path.up := by
  intro heq
  have hlen := congrArg List.length heq
  rw [List.length_append] at hlen
  have hending : (WideText.ofText componentEnding).length = 4 := rfl
  have hup : Path.up.length = 2 := rfl
  omega

theorem componentName_ne_up (id : Text) :
    WideText.ofText (id ++ componentEnding) ≠ Path.up := by
  rw [WideText.ofText_append]
  exact append_componentEnding_ne_up _

/-- The text that a setting gives, if it gives one that is not empty. -/
def text? (value : Option Yaml.Value) : Except Fault (Option WideText) :=
  match value with
  | some (.text w) => .ok (if w = [] then none else some w)
  | some (.int i) =>
    let t := Text.ofInt i
    if Nat.pow 10 Number.digitLimit ≤ i.natAbs then .error .unprintable else .ok (some t)
  | some (.float x) => .ok (some x.toText)
  | _ => .ok none

def real? (value : Option Yaml.Value) : Except Fault (Option Binary64) :=
  match value with
  | some (.int i) =>
    match Binary64.ofInt? i with
    | some x => .ok (some x)
    | none => .error .beyondBinary64
  | some (.float x) => .ok (some x)
  | some (.text w) => .ok (Number.real? w.masked)
  | _ => .ok none

/-- The whole number that a setting gives, unless it is zero. -/
def whole? (value : Option Yaml.Value) : Option Int :=
  match value with
  | some (.int i) => if i = 0 then none else some i
  | some (.text w) =>
    match Number.whole 10 w.masked with
    | .ok i => if i = 0 then none else some i
    | .error _ => none
  | _ => none

def path? (host : Host) (root : Path) (value : Option Yaml.Value) : Except Fault (Option Path) := do
  match ← text? value with
  | none => return none
  | some w =>
    match host.expand? (.ofText w) with
    | some p => return some (root.join p)
    | none => .error (.noHome (Host.userFault? (.ofText w)))

def helperOf (section_ : Option Yaml.Value) : Except Fault ServiceAddress := do
  match section_ with
  | some (.mapping fields) =>
    if fields = [] then return defaultHelper
    let url ← text? ((Yaml.Value.mapping fields).field? "base_url")
    let timeout ← real? ((Yaml.Value.mapping fields).field? "request_timeout")
    return ⟨url.getD defaultHelper.baseUrl, timeout⟩
  | _ => return defaultHelper

def serviceOf (section_ : Option Yaml.Value) : Except Fault Binding := do
  match section_ with
  | some (.mapping fields) =>
    let host ← text? ((Yaml.Value.mapping fields).field? "host")
    let portNumber := whole? ((Yaml.Value.mapping fields).field? "port")
    return ⟨host.getD defaultService.host, portNumber.getD defaultService.portNumber⟩
  | _ => return defaultService

def ofMapping (host : Host) (root : Path) (m : Yaml.Value) : Except Fault Settings := do
  let base := defaults root
  let document ← path? host root (m.field? "source_document")
  let directory ← path? host root (m.field? "source_dir")
  let components ← path? host root (m.field? "components_dir")
  let helper ← helperOf (m.field? "helper")
  let service ← serviceOf (m.field? "service")
  return { base with
    sourceDocument := document.getD base.sourceDocument
    sourceDirectory := directory.getD base.sourceDirectory
    componentsDirectory := components.getD base.componentsDirectory
    helper, service }

/-- How deep the settings look into their document. -/
def levels : Nat := 3

/-- The document in a settings file. One that is empty in any way is an empty mapping. -/
def documentOf (host : Host) (content : Text) : Except Fault Yaml.Value :=
  if Text.allBlank content then .ok (.mapping [])
  else match host.document content with
    | .ok (.mapping fields) => .ok (.mapping fields)
    | .ok value => if value.holds then .error .notMapping else .ok (.mapping [])
    | .error .malformed => .error (.malformed (host.problem content))
    | .error fault => .error (.value fault)

def liftFile {α : Type} (r : Except FileFault α) : Except Fault α :=
  match r with
  | .ok a => .ok a
  | .error fault => .error (.file fault)

def readText (t : Tree) (p : Path) : Except Fault Text := do
  match Utf8.decode (← liftFile (t.read p)) with
  | .ok content => return Text.unifyBreaks content
  | .error fault => .error (.encoding fault)

/-- The settings file of a project that is given by its directory, by the file itself, or by any
other file next to it. -/
def locate (host : Host) (t : Tree) (p : Path) : Except Fault Path := do
  match host.expand? p with
  | none => .error (.noHome (Host.userFault? p))
  | some p =>
    let isDirectory ← match t.isDirectory (host.absolute p) with
      | .ok b => pure b
      | .error fault => .error (.file (fault.as p))
    let file :=
      if isDirectory then p.child fileName
      else if p.name = WideText.ofText fileName then p
      else p.parent.child fileName
    liftFile (host.resolve file)

def load (host : Host) (t : Tree) (p : Path) : Except Fault Settings := do
  let file ← locate host t p
  match ← liftFile (t.stat file) with
  | none => return defaults file.parent
  | some _ => ofMapping host file.parent (← documentOf host (← readText t file))

/-- The settings of a project whose path is made absolute first. -/
def loadResolved (host : Host) (t : Tree) (p : Path) : Except Fault Settings := do
  match host.expand? p with
  | none => .error (.noHome (Host.userFault? p))
  | some p => load host t (← liftFile (host.resolve p))

end Settings

/-- A host that reads documents as YAML, and has nothing to say of what is wrong with one. -/
def Host.withYaml (current : Path) (home : Text) (homes : List (Text × Text)) : Host where
  current := current
  home := home
  homes := homes
  document := Yaml.Value.ofText Settings.levels
  problem _ := []

end CanvasLift
