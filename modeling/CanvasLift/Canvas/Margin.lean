import CanvasLift.Text.Blank

/-!
The left margin that the lines of a block share. Blank lines have no say in it and stay as they are.
-/

namespace CanvasLift.Canvas

/-- The least indentation of the lines that are not blank. -/
def margin (lines : List Text) : Nat :=
  ((lines.filter fun line ↦ !Text.allBlank line).map Text.indentation).min?.getD 0

def dedent (lines : List Text) : List Text :=
  let width := margin lines
  lines.map fun line ↦ if Text.allBlank line then line else line.drop width

end CanvasLift.Canvas
