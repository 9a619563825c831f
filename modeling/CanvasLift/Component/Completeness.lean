import CanvasLift.Pattern
import CanvasLift.Text.Blank

/-!
Whether a component file is still a placeholder. A file that does not carry the marker of a component
is none of our business; one that returns a single element with bare text is a stub, unless something
in it shows a full interface.
-/

namespace CanvasLift.Component

open Pattern

inductive Verdict
  | skip
  | stub
  | complete
  deriving DecidableEq

def Verdict.name : Verdict → Text
  | .skip => "skip"
  | .stub => "stub"
  | .complete => "complete"

namespace Completeness

def marker : Pattern := literal "data-component-id"

def isQuote (c : Char) : Bool := c = '"' || c = '\''

def quoteMark : Pattern := one isQuote

def quotedText : Pattern := chain [quoteMark, run fun c ↦ !isQuote c, quoteMark]

def closing : Pattern :=
  chain [literal "</div>", many Text.isBlank, optional (literal ";"), many Text.isBlank, lineEnd]

/-- One element that carries the marker, with no element inside. -/
def markedStub : Pattern :=
  chain [literal "return", many Text.isBlank, literal "<div", run Text.isBlank,
    literal "data-component-id=", quotedText, many (· ≠ '>'), literal ">", many Text.isBlank,
    many (· ≠ '<'), closing]

/-- One element with bare text: no element and no expression inside. -/
def bareStub : Pattern :=
  chain [literal "return", many Text.isBlank, literal "<div", many (· ≠ '>'), literal ">",
    many Text.isBlank, many fun c ↦ c ≠ '<' && c ≠ '\x7b', closing]

def stubs : List Pattern := [markedStub, bareStub]

def importDeclaration : Pattern :=
  chain [lineStart, many Text.isBlank, literal "import", run Text.isBlank, run (· ≠ '\n'),
    run Text.isBlank, literal "from", run Text.isBlank, quotedText]

def wideClasses : Pattern :=
  chain [literal "className=", many (· ≠ '\n'), one Text.isBlank, run Text.isBlank]

def richElement : Pattern :=
  chain [literal "<", oneOf ["button", "nav", "header", "aside", "main"], one Text.isBlank]

def indicators : List Pattern :=
  [literal "@carbon/icons-react",
   importDeclaration,
   oneOf ["border-brandcolor", "bg-brandcolor", "text-brandcolor"],
   oneOf ["rounded-large", "rounded-button", "shadow-card"],
   wideClasses,
   richElement]

def classify (content : Text) : Verdict :=
  if !marker.occursIn content then .skip
  else if !stubs.any fun p ↦ p.occursIn content then .complete
  else if indicators.any fun p ↦ p.occursIn content then .complete
  else .stub

end Completeness

end CanvasLift.Component
