import CanvasLift.Json.Encoding
import CanvasLift.Json.Reader
import CanvasLift.Service.Api

namespace CanvasLift.Api

/-- The pages that describe the service. They are made elsewhere and only there to be read. -/
def pages : List Text := ["/openapi.json", "/docs", "/docs/oauth2-redirect", "/redoc"]

inductive Resource
  | endpoint (e : Endpoint)
  | page
  deriving DecidableEq

namespace Resource

def methods : Resource → List Text
  | endpoint e => [e.method]
  | page => ["GET", "HEAD"]

/-- What is at a path. Slashes at its end do not count, and neither does a line feed there. -/
def at? (path : Text) : Option Resource :=
  let path := (path.reverse.dropWhile (· = '/')).reverse
  let path := if path.getLast? = some '\n' then path.dropLast else path
  match Endpoint.all.find? fun e ↦ e.path = path with
  | some e => some (endpoint e)
  | none => if pages.contains path then some page else none

end Resource

namespace Framework

def detail (status : Nat) (text : Text) : Response :=
  ⟨status, .value (.object [("detail", .string text)])⟩

def routeTo (method : Text) (path : Option Text) : Except Response Endpoint :=
  match path.bind Resource.at? with
  | none => .error (detail 404 "Not Found")
  | some resource =>
    if !resource.methods.contains method then .error (detail 405 "Method Not Allowed")
    else match resource with
      | .endpoint e => .ok e
      | .page => .error ⟨200, .page⟩

/-- A body that is no text, or that holds too much of something. -/
def unreadable : Response := detail 400 "There was an error parsing the body"

def readBody (depth : Nat) (body : Bytes) : Except Response Json :=
  if body = [] then .ok .null
  else match (Json.textOfBytes? body).map (Json.ofText depth) with
    | none => .error unreadable
    | some (.ok value) => .ok value
    | some (.error .malformed) => .error unprocessable
    | some (.error _) => .error unreadable

/-- The framework of the program, where a body may be `depth` arrays and objects deep. -/
def standard (depth : Nat) : Framework := ⟨routeTo, readBody depth⟩

end Framework

end CanvasLift.Api
