import CanvasLift.Component.Dependencies
import CanvasLift.Identifier

/-!
The source text of a component: a client directive, the imports its body needs, its props if it has
any, and a function that returns the body.
-/

namespace CanvasLift.Component

def clientDirective : Text := "\"use client\";"

def propType : Text := "string | boolean"

def bodyIndent : Text := "    "

def glyphImport (glyphs : List Text) : Text :=
  "import \x7b " ++ Text.joinWith ", " glyphs ++ " \x7d from \"" ++ glyphModule ++ "\";"

def subComponentImport : Text :=
  "import " ++ subComponent ++ " from \"" ++ subComponentModule ++ "\";"

def importLines (deps : Dependencies) : List Text :=
  (if deps.glyphs = [] then [] else [glyphImport deps.glyphs, []]) ++
    if deps.usesSubComponent then [subComponentImport, []] else []

def propLines (name : Text) (props : List Text) : List Text :=
  if props = [] then []
  else ("export interface " ++ name ++ "Props \x7b") ::
    props.map (fun prop ↦ "  " ++ prop ++ "?: " ++ propType ++ ";") ++ ([['\x7d'], []] : List Text)

def parameters (name : Text) (props : List Text) : Text :=
  if props = [] then []
  else "\x7b " ++ Text.joinWith ", " props ++ " \x7d: " ++ name ++ "Props = \x7b\x7d"

def bodyLines (body : Text) : List Text :=
  if body = [] then []
  else (Text.lines body).map fun line ↦ if Text.allBlank line then line else bodyIndent ++ line

def sourceLines (id body : Text) (props : List Text) (deps : Dependencies) : List Text :=
  let name := Identifier.componentName id
  let opening : Text :=
    "export default function " ++ name ++ "(" ++ parameters name props ++ ") \x7b"
  let closing : List Text := ["  );", "\x7d"]
  [clientDirective, []] ++ importLines deps ++ propLines name props ++ [opening, "  return ("] ++
    bodyLines body ++ closing

def source (id body : Text) (props : List Text) (deps : Dependencies) : Text :=
  Text.unlines (sourceLines id body props deps) ++ "\n"

end CanvasLift.Component
