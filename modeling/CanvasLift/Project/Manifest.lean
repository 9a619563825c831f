import CanvasLift.Json

namespace CanvasLift

structure Manifest where
  success : Bool
  files : List WideText := []
  componentPath : Option WideText := none
  componentTag : Option WideText := none
  error : Option WideText := none
  origin : Option WideText := none
  deriving DecidableEq

namespace Manifest

def failure (message : WideText) : Manifest :=
  { success := false, error := some message }

def originFields : Option WideText → List (WideText × Json)
  | none | some [] => []
  | some origin => [("origin", .string origin)]

def toJson (m : Manifest) : Json :=
  .object (("success", .bool m.success) ::
    if m.success then
      ("files", .array (m.files.map .string)) :: ("componentPath", .ofWideText? m.componentPath) ::
        ("componentTag", .ofWideText? m.componentTag) :: originFields m.origin
    else [("error", .ofWideText? m.error)])

def textField? (key : Text) (value : Json) : Option WideText :=
  (value.field? key).bind Json.wideText?

/-- The files that a manifest lists: none, if what stands there is no list. -/
def filesOf (value : Json) : List WideText :=
  match value.field? "files" with
  | some (.array items) => items.map Json.asText
  | _ => []

/-- The manifest in an object. Success is whatever holds, and what is no text is left out. -/
def ofJson (value : Json) : Manifest where
  success := (value.field? "success").any Json.holds
  files := filesOf value
  componentPath := textField? "componentPath" value
  componentTag := textField? "componentTag" value
  error := textField? "error" value
  origin := textField? "origin" value

end Manifest

end CanvasLift
