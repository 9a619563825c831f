import CanvasLift.Pattern
import CanvasLift.Text.Blank

/-!
The arms of the dispatch chain in a canvas document. The arm of an element type opens on a line with
its guard and closes on the first later line that hands over to the next arm or to the catch-all.
-/

namespace CanvasLift.Canvas

open Pattern

def quoteMark : Pattern := one fun c ↦ c = '"' || c = '\''

/-- The test of the element's type, up to the parenthesis that opens the arm's markup. -/
def guard : Pattern :=
  chain [wordEdge, literal "el.type", many Text.isBlank, literal "===", many Text.isBlank,
    quoteMark, capture (run fun c ↦ c ≠ '"' && c ≠ '\''), quoteMark, many Text.isBlank,
    literal "?", many Text.isBlank, literal "("]

/-- The end of an arm's markup: the closing parenthesis, and the start of the alternative. -/
def handOver : Pattern :=
  chain [many Text.isBlank, literal ")", many Text.isBlank, literal ":", many Text.isBlank,
    alt (chain [literal "el.type", many Text.isBlank, literal "==="]) (literal "(")]

/-- The lines of an arm: its guard's, and the one that hands over. The payload lies between. -/
structure Span where
  start : Nat
  stop : Nat
  deriving DecidableEq

namespace Span

def payload (s : Span) (lines : List Text) : List Text :=
  (lines.drop (s.start + 1)).take (s.stop - (s.start + 1))

def locate? (lines : List Text) (id : Text) : Option Span := do
  let start ← lines.findIdx? fun line ↦ guard.capture? line = some id
  let length ← (lines.drop (start + 1)).findIdx? handOver.opens
  return ⟨start, start + 1 + length⟩

end Span

end CanvasLift.Canvas
