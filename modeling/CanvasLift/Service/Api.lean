import CanvasLift.Project.Deletion
import CanvasLift.Project.Generation

/-!
The generation service: what it answers to requests over HTTP. It keeps nothing between requests, so
the settings are loaded for each.
-/

namespace CanvasLift.Api

/-- What an answer holds: a value in its JSON form, a page to be read by people, or nothing. -/
inductive Content
  | value (v : Json)
  | page
  | nothing

structure Response where
  status : Nat
  content : Content

inductive Endpoint
  | health
  | generate
  | extract
  | delete
  deriving DecidableEq

namespace Endpoint

def path : Endpoint → Text
  | health => "/health"
  | generate => "/generate-component"
  | extract => "/extract-component"
  | delete => "/delete-component"

def method : Endpoint → Text
  | health => "GET"
  | _ => "POST"

def all : List Endpoint := [health, generate, extract, delete]

end Endpoint

/-- What the service is built on. It says where a request goes and what value is in a body, or answers
by itself. -/
structure Framework where
  route : (method : Text) → (path : Option Text) → Except Response Endpoint
  read : Bytes → Except Response Json

def failure (status : Nat) (message : WideText) : Response :=
  ⟨status, .value (.object [("success", .bool false), ("error", .string message)])⟩

def success (value : Json) : Response := ⟨200, .value value⟩

def unprocessable : Response := ⟨422, .nothing⟩

/-- What an object gives for the id: either spelling, the first one if both are there. -/
def idIn (value : Json) : Json :=
  ((value.field? "componentId").or (value.field? "component_id")).getD .null

def present (fields : List (WideText × Option Json)) : Json :=
  .object (fields.filterMap fun (key, value) ↦ value.map (key, ·))

structure GenerateResponse where
  success : Bool
  files : Option (List WideText) := none
  componentPath : Option WideText := none
  componentTag : Option WideText := none
  origin : Option WideText := none
  error : Option WideText := none

def GenerateResponse.toJson (r : GenerateResponse) : Json :=
  present [("success", some (.bool r.success)), ("files", r.files.map Json.texts),
    ("componentPath", r.componentPath.map .string), ("componentTag", r.componentTag.map .string),
    ("origin", r.origin.map .string), ("error", r.error.map .string)]

structure ExtractResponse where
  success : Bool
  source : Option WideText := none
  error : Option WideText := none

def ExtractResponse.toJson (r : ExtractResponse) : Json :=
  present [("success", some (.bool r.success)), ("source", r.source.map .string),
    ("error", r.error.map .string)]

structure DeleteResponse where
  success : Bool
  deleted : Bool := false
  updatedFiles : List WideText := []

def DeleteResponse.toJson (r : DeleteResponse) : Json :=
  .object [("success", .bool r.success), ("deleted", .bool r.deleted),
    ("updatedFiles", Json.texts r.updatedFiles)]

def generate (host : Host) (s : Settings) (id : Text) : Work Response := do
  let m ← Generation.run host s (.string id)
  if m.success then
    let r : GenerateResponse :=
      { success := true, files := some m.files, componentPath := m.componentPath,
        componentTag := m.componentTag, origin := m.origin }
    return success r.toJson
  else
    let message := m.error.getD []
    return failure 500 (if message = [] then "Generation failed" else message)

def extract (host : Host) (s : Settings) (id : Text) : Work Response := do
  let r : ExtractResponse := match ← Extraction.request host (some id) s.sourceDocument with
    | .ok source => { success := true, source := some source }
    | .error fault => { success := false, error := some fault.message }
  return success r.toJson

def delete (s : Settings) (id : Text) : Work Response := do
  match ← Deletion.run s (.string id) with
  | .done deleted updatedFiles =>
    let r : DeleteResponse := { success := true, deleted, updatedFiles }
    return success r.toJson
  | .failed message =>
    let message := message.getD []
    return failure 500 (if message = [] then "Deletion failed" else message)

def healthReport : Response := success (.object [("status", .string "ok")])

def perform (host : Host) (s : Settings) (id : Text) : Endpoint → Work Response
  | .health => return healthReport
  | .generate => generate host s id
  | .extract => extract host s id
  | .delete => delete s id

def answer (host : Host) (s : Settings) (endpoint : Endpoint) (value : Json) : Work Response :=
  match Identifier.require (idIn value).text? with
  | .error fault => return failure 400 fault.message
  | .ok id => perform host s id endpoint

/-- The answer of an endpoint to a body. The settings are loaded once the body is read. -/
def call (f : Framework) (host : Host) (load : Tree → Except Settings.Fault Settings)
    (endpoint : Endpoint) (body : Bytes) : Attempt Settings.Fault Response := do
  if endpoint = .health then return healthReport
  match f.read body with
  | .error response => return response
  | .ok value =>
    let s ← look load
    match value with
    | .object fields => answer host s endpoint (.object fields)
    | _ => return unprocessable

def serve (f : Framework) (host : Host) (load : Tree → Except Settings.Fault Settings)
    (method : Text) (path : Option Text) (body : Bytes) : Attempt Settings.Fault Response := do
  match f.route method path with
  | .error response => return response
  | .ok endpoint => call f host load endpoint body

end CanvasLift.Api
