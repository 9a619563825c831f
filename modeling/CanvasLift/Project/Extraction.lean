import CanvasLift.Canvas.Arm
import CanvasLift.Canvas.Markup
import CanvasLift.Component.Source
import CanvasLift.Files.Host
import CanvasLift.Json
import CanvasLift.Project.Workspace

/-!
Extraction: the source of a component from the arm of its type in a canvas document. The document is
read anew each time.
-/

namespace CanvasLift

structure Extraction where
  span : Canvas.Span
  block : Text
  markup : Canvas.Markup
  source : Text

namespace Extraction

inductive Fault
  | identifier (fault : Identifier.Fault)
  | documentNotFound (path : Path)
  | armNotFound (id : Text) (documentName : Name)
  | file (fault : FileFault)
  | encoding (fault : Utf8.Fault)
  deriving DecidableEq

def Fault.message : Fault → WideText
  | .identifier fault => fault.message
  | .documentNotFound path => .ofText "Canvas document not found: " ++ path.toText
  | .armNotFound id name => .ofText ("No branch el.type === \"" ++ id ++ "\" in ") ++ name
  | .file fault => fault.message
  | .encoding fault => fault.message

/-- The class of a fault that is to be expected; others have none. -/
def Fault.kind? : Fault → Option Text
  | .identifier _ => some "invalid_identifier"
  | .documentNotFound _ => some "document_not_found"
  | .armNotFound _ _ => some "branch_not_found"
  | .file _ | .encoding _ => none

def ofLines? (lines : List Text) (id : Text) : Option Extraction := do
  let span ← Canvas.Span.locate? lines id
  let block := Text.unlines (span.payload lines)
  let markup := Canvas.Markup.ofBlock block
  let deps := Component.Dependencies.ofBody markup.body
  return ⟨span, block, markup, Component.source id markup.body markup.props deps⟩

def readDocument (t : Tree) (document : Path) : Except Fault Text :=
  match t.isFile document with
  | .error fault => .error (.file fault)
  | .ok false => .error (.documentNotFound document)
  | .ok true =>
    match t.read document with
    | .error fault => .error (.file fault)
    | .ok bytes =>
      match Utf8.decode bytes with
      | .error fault => .error (.encoding fault)
      | .ok content => .ok (Text.unifyBreaks content)

def ofTree (t : Tree) (id : Text) (document : Path) : Except Fault Extraction := do
  let content ← readDocument t document
  match ofLines? (Text.lines content) id with
  | some e => return e
  | none => throw (.armNotFound id document.name)

def resultJson (r : Except WideText Text) : Json :=
  match r with
  | .ok source => .object [("success", .bool true), ("source", .string source)]
  | .error message => .object [("success", .bool false), ("error", .string message)]

def propsText (props : List Text) : Text :=
  match props with
  | [p] => "(" ++ Text.quoted p ++ ",)"
  | _ => "(" ++ Text.joinWith ", " (props.map Text.quoted) ++ ")"

/-- Records what was found, or that a fault was unexpected. -/
def record (id : Text) (r : Except Fault Extraction) : Work Unit :=
  match r with
  | .ok e => do
    note .debug "extraction" (.ofText ("Located " ++ id ++ " at lines " ++
      Text.ofNat (e.span.start + 1) ++ "-" ++ Text.ofNat (e.span.stop + 1)))
    note .debug "extraction.transform" (.ofText ("Transformed " ++ id ++ " block: " ++
      Text.ofNat (Canvas.lineCount e.block) ++ " lines, props=" ++ propsText e.markup.props))
  | .error (.file _) | .error (.encoding _) =>
    note .debug "extraction" (.ofText ("Unexpected extraction fault for " ++ id))
  | .error _ => return

def run (host : Host) (id : Text) (document : Path) : Work (Except Fault Text) := do
  let r := ofTree (← get).tree id (host.absolute document)
  record id r
  return r.map (·.source)

def request (host : Host) (given : Option Text) (document : Path) : Work (Except Fault Text) := do
  match Identifier.require given with
  | .ok id => run host id document
  | .error fault => return .error (.identifier fault)

end Extraction

end CanvasLift
