import CanvasLift.Number.Shortest
import CanvasLift.Text.Wide

/-!
JSON values. Whole numbers are kept apart from others, strings and keys are wide text, and an object
keeps its keys in the order in which they first came.
-/

namespace CanvasLift

inductive Json
  | null
  | bool (b : Bool)
  | int (i : Int)
  | float (x : Binary64)
  | string (w : WideText)
  | array (items : List Json)
  | object (fields : List (WideText × Json))

namespace Json

/-- The fields with one value set: in the key's place, or at the end for a new key. -/
def setField (key : WideText) (value : Json) : List (WideText × Json) → List (WideText × Json)
  | [] => [(key, value)]
  | (k, v) :: rest => if k = key then (k, value) :: rest else (k, v) :: setField key value rest

def field? (key : Text) : Json → Option Json
  | object fields => fields.lookup (WideText.ofText key)
  | _ => none

def wideText? : Json → Option WideText
  | string w => some w
  | _ => none

def text? (value : Json) : Option Text := value.wideText?.map WideText.toText

/-- Empty values, zeros, `false` and `null` do not hold; all else does. -/
def holds : Json → Bool
  | null => false
  | bool b => b
  | int i => i ≠ 0
  | float x => !x.isZero
  | string w => w ≠ []
  | array items => !items.isEmpty
  | object fields => !fields.isEmpty

mutual

def isFinite : Json → Bool
  | float (.finite _ _ _) => true
  | float _ => false
  | array items => areFinite items
  | object fields => areFiniteFields fields
  | null | bool _ | int _ | string _ => true

def areFinite : List Json → Bool
  | [] => true
  | item :: rest => isFinite item && areFinite rest

def areFiniteFields : List (WideText × Json) → Bool
  | [] => true
  | (_, value) :: rest => isFinite value && areFiniteFields rest

end

def ofText? : Option Text → Json
  | some t => string t
  | none => null

def ofWideText? : Option WideText → Json
  | some w => string w
  | none => null

def texts (ts : List WideText) : Json := array (ts.map string)

mutual

/-- A value as it stands inside a list or an object, its texts quoted. Every value has a display
here, also a whole number with more digits, or a list that goes deeper, than a printer with limits
would take. -/
def display : Json → Text
  | null => "None"
  | bool b => if b then "True" else "False"
  | int i => Text.ofInt i
  | float x => x.toText
  | string w => w.quoted
  | array items => "[" ++ Text.joinWith ", " (displayItems items) ++ "]"
  | object fields => "\x7b" ++ Text.joinWith ", " (displayFields fields) ++ "\x7d"

def displayItems : List Json → List Text
  | [] => []
  | item :: rest => display item :: displayItems rest

def displayFields : List (WideText × Json) → List Text
  | [] => []
  | (key, value) :: rest => (key.quoted ++ ": " ++ display value) :: displayFields rest

end

/-- A value on its own: a string stands for itself. It has no limits either. -/
def asText : Json → WideText
  | string w => w
  | value => display value

end Json

end CanvasLift
