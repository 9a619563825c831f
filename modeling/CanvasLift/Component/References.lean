import CanvasLift.Pattern
import CanvasLift.Text.Blank

/-!
The references to a component in other source files: default imports of its module, and self-closing
uses of the names they bind. Both go when the component is deleted; a use becomes an empty
expression.
-/

namespace CanvasLift.Component

open Pattern

namespace References

def isQuote (c : Char) : Bool := c = '\'' || c = '"'

def isSlash (c : Char) : Bool := c = '/' || c = '\\'

def notQuote : Pattern := many fun c ↦ !isQuote c

/-- A module path that leads to the component: `components`, then the id as a whole segment or with
the extension of a source file. -/
def modulePath (id : Text) : Pattern :=
  chain [notQuote, literal "components", one isSlash, literal id,
    optional (alt (chain [one isSlash, notQuote])
      (chain [literal ".", oneOf ["tsx", "ts", "jsx", "js"]]))]

def padding : Pattern := many fun c ↦ c = ' ' || c = '\t'

def defaultImport (id : Text) : Pattern :=
  chain [lineStart, padding, literal "import", run Text.isBlank, capture (run Text.isWord),
    run Text.isBlank, literal "from", run Text.isBlank, one isQuote, modulePath id, one isQuote,
    optional (literal ";"), padding, optional (chain [optional (literal "\r"), literal "\n"])]

def selfClosing (name : Text) : Pattern :=
  alt (chain [literal "<", literal name, run Text.isBlank, many (· ≠ '/'), literal "/>"])
    (chain [literal "<", literal name, many Text.isBlank, literal "/>"])

def emptyExpression : Text := "\x7bnull\x7d"

def strip (id content : Text) : Text :=
  let names := (defaultImport id).captures content
  (Text.distinct names).foldl
    (fun content name ↦ (selfClosing name).replace (fun _ ↦ emptyExpression) content)
    ((defaultImport id).erase content)

end References

end CanvasLift.Component
