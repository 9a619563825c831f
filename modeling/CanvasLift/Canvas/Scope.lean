import CanvasLift.Pattern

/-!
References to the element in scope. A standalone component has no element: each reference `el.name`
becomes the prop `name`, and the names are recorded in the order of their first appearance.
-/

namespace CanvasLift.Canvas

open Pattern

def isNameStart (c : Char) : Bool := c.isAlpha || c = '_'

def isNameChar (c : Char) : Bool := c.isAlphanum || c = '_'

def scopeReference : Pattern :=
  chain [wordEdge, literal "el.", capture (chain [one isNameStart, many isNameChar]), wordEdge]

def resolveReferences (line : Text) : Text := scopeReference.replace id line

/-- The names recorded before, and after them the new names of the line. -/
def recordReferences (found : List Text) (line : Text) : List Text :=
  (scopeReference.captures line).foldl Text.addNew found

end CanvasLift.Canvas
