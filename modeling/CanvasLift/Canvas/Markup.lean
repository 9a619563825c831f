import CanvasLift.Canvas.Callback
import CanvasLift.Canvas.Margin
import CanvasLift.Canvas.Scope

/-!
Standalone markup from the block of an arm. Every step works on one line at a time, so line `i` of
the markup stems from line `i` of the block. Affordances go first, since a drag handler refers to the
element's id.
-/

namespace CanvasLift.Canvas

structure Markup where
  body : Text
  props : List Text
  deriving DecidableEq

def reservedName : Text := "id"

namespace Markup

def ofBlock (block : Text) : Markup :=
  let lines := (dedent (Text.lines (Text.joinBreaks block))).map stripAffordances
  let body := Text.unlines (lines.map fun line ↦ normalizeCallbacks (resolveReferences line))
  let found := lines.foldl recordReferences []
  ⟨if Text.allBlank body then [] else body, found.filter (· ≠ reservedName)⟩

end Markup

def lineCount (block : Text) : Nat := (Text.lines (Text.joinBreaks block)).length

end CanvasLift.Canvas
