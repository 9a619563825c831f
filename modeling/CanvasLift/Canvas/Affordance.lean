import CanvasLift.Pattern
import CanvasLift.Text.Blank

/-!
What markup carries only so that it can be dragged and selected on the canvas: handlers, a button
role, a tab stop and cursor classes. A line that held nothing else becomes empty; any other keeps its
indentation.
-/

namespace CanvasLift.Canvas

open Pattern

def spaceRun : Pattern := chain [literal " ", run (· = ' ')]

def collapseSpaces (t : Text) : Text := spaceRun.replace (fun _ ↦ [' ']) t

def padding : Pattern := many fun c ↦ c = ' ' || c = '\t'

/-- A braced expression that holds no closing brace and stays on its line. -/
def braced : Pattern :=
  chain [literal "\x7b", run fun c ↦ c ≠ '\x7d' && c ≠ '\n', literal "\x7d"]

def canvasAttributes : List Pattern :=
  [chain [padding, literal "onMouseDown=", braced],
   chain [padding, literal "role=\"button\""],
   chain [padding, literal "tabIndex=\x7b0\x7d"]]

def canvasClasses : List Text := ["cursor-move", "hover:cursor-grab", "active:cursor-grabbing"]

def isClassChar (c : Char) : Bool := Text.isWord c || c = ':' || c = '-'

def canvasClass : Pattern :=
  chain [between fun l _ ↦ !l.any isClassChar, oneOf canvasClasses,
    between fun _ r ↦ !r.any isClassChar]

def cleanClasses (classes : Text) : Text :=
  Text.trim (collapseSpaces (canvasClass.erase classes))

def classAttribute : Pattern :=
  chain [literal "className=\"", capture (many (· ≠ '"')), literal "\""]

def cleanClassAttributes (line : Text) : Text :=
  classAttribute.replace (fun classes ↦ "className=\"" ++ cleanClasses classes ++ "\"") line

def eraseAttributes (line : Text) : Text :=
  canvasAttributes.foldl (fun line pattern ↦ pattern.erase line) line

/-- The indentation, and the rest with runs of spaces collapsed and nothing blank at its end. -/
def tidy (line : Text) : Text :=
  match Text.trimEnd (collapseSpaces (Text.trimStart line)) with
  | [] => []
  | content => line.takeWhile Text.isBlank ++ content

def stripAffordances (line : Text) : Text :=
  if Text.allBlank line then line else tidy (cleanClassAttributes (eraseAttributes line))

end CanvasLift.Canvas
