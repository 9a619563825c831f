import CanvasLift.Json.Printer
import CanvasLift.Json.Reader
import CanvasLift.Project.Manifest
import CanvasLift.Text.Blank
import CanvasLift.Text.Utf8

namespace CanvasLift.Client

structure Request where
  url : WideText
  method : Text
  body : Option Text
  contentType : Option Text
  timeout : Option Binary64

inductive Reply
  | answered (body : Bytes)
  | refused (status : Int) (reason : Text) (body : Bytes)
  | unreachable (reason : Text)
  | timedOut (message : Text)

inductive Fault
  | noScheme (url : WideText)
  | badStatus (status : Int) (reason : Text)
  | unreachable (baseUrl : WideText) (reason : Text)
  | invalidReply
  | timedOut (message : Text)
  | number (fault : Number.Fault)
  | tooDeep (isObject : Bool)
  deriving DecidableEq

def Fault.message : Fault → WideText
  | .noScheme url => .ofText ("unknown url type: " ++ WideText.quoted url)
  | .badStatus status reason =>
    .ofText ("Component service returned status " ++ Text.ofInt status ++ ": " ++ reason)
  | .unreachable baseUrl reason =>
    .ofText "Component service unavailable at " ++ baseUrl ++ .ofText (": " ++ reason)
  | .invalidReply => .ofText "Component service returned invalid JSON"
  | .timedOut message => message
  | .number fault => fault.message
  | .tooDeep isObject =>
    let kind : Text := if isObject then "object" else "array"
    .ofText ("maximum recursion depth exceeded while decoding a JSON " ++ kind ++
      " from a unicode string")

def Fault.isUnavailable : Fault → Bool
  | .badStatus _ _ | .unreachable _ _ | .invalidReply => true
  | .noScheme _ | .timedOut _ | .number _ | .tooDeep _ => false

def baseOf (url : WideText) : WideText := (url.reverse.dropWhile (· = .char '/')).reverse

def bareUrl (url : WideText) : WideText :=
  let url := WideText.trim url
  let url := match url with
    | .char '<' :: rest =>
      if rest.getLast? = some (.char '>') then WideText.trim rest.dropLast else url
    | _ => url
  match Text.dropFront? (WideText.ofText "URL:") url with
  | some rest => WideText.trim rest
  | none => url

/-- The address up to its last number sign. -/
def withoutFragment (url : WideText) : WideText :=
  if .char '#' ∈ url then ((url.reverse.dropWhile (· ≠ .char '#')).drop 1).reverse else url

/-- Whether an address names a scheme: a colon comes before any slash, and not first. -/
def hasScheme (url : WideText) : Bool :=
  let scheme := url.takeWhile fun s ↦ s ≠ .char '/' && s ≠ .char ':'
  !scheme.isEmpty && url[scheme.length]? = some (.char ':')

def address (base : WideText) (path : Text) : Except Fault WideText :=
  let url := bareUrl (base ++ path)
  if hasScheme (withoutFragment url) then .ok url else .error (.noScheme url)

def healthRequest (service : WideText) (timeout : Option Binary64) : Except Fault Request :=
  (address (baseOf service) "/health").map fun url ↦ ⟨url, "GET", none, none, timeout⟩

def generateRequest (service : WideText) (timeout : Option Binary64) (id : Json) :
    Except Fault Request :=
  (address (baseOf service) "/generate-component").map fun url ↦
    ⟨url, "POST", some (Json.object [("componentId", id)]).compact, some "application/json", timeout⟩

def decode (depth : Nat) (body : Bytes) : Except Fault (Option Json) :=
  match Utf8.decode body with
  | .error _ => .ok none
  | .ok t =>
    match Json.ofText depth t with
    | .ok (.object fields) => .ok (some (.object fields))
    | .ok _ => .ok none
    | .error .malformed => .ok none
    | .error (.number fault) => .error (.number fault)
    | .error (.tooDeep isObject) => .error (.tooDeep isObject)

/-- The object that a reply delivers. A refusal may deliver one too. -/
def payload (depth : Nat) (service : WideText) : Reply → Except Fault Json
  | .answered body => do
    match ← decode depth body with
    | some value => return value
    | none => throw .invalidReply
  | .refused status reason body => do
    match ← decode depth body with
    | some value => return value
    | none => throw (.badStatus status reason)
  | .unreachable reason => throw (.unreachable (baseOf service) reason)
  | .timedOut message => throw (.timedOut message)

def healthy (depth : Nat) (service : WideText) (reply : Reply) : Except Fault Bool :=
  match payload depth service reply with
  | .ok value => .ok ((value.field? "status").bind Json.text? = some ("ok" : Text))
  | .error fault => if fault.isUnavailable then .ok false else .error fault

def generated (depth : Nat) (service : WideText) (reply : Reply) : Except Fault Manifest :=
  (payload depth service reply).map Manifest.ofJson

end CanvasLift.Client
