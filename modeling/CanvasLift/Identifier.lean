import CanvasLift.Text

/-!
Identifiers of canvas elements: letters and digits of ASCII, dashes and underscores. Whatever else a
given id holds is dropped.
-/

namespace CanvasLift.Identifier

def isAllowed (c : Char) : Bool := c.isAlphanum || c = '_' || c = '-'

def sanitize (t : Text) : Text := t.filter isAllowed

inductive Fault
  | missing
  | unusable
  deriving DecidableEq

def Fault.message : Fault → Text
  | .missing => "componentId required"
  | .unusable => "Invalid componentId"

/-- The usable part of what was given for an id: `none` stands for anything but a text. -/
def require (given : Option Text) : Except Fault Text :=
  match given with
  | none | some [] => .error .missing
  | some t => if sanitize t = [] then .error .unusable else .ok (sanitize t)

def segments (t : Text) : List Text := Text.splitOn '-' (t.map fun c ↦ if c = '_' then '-' else c)

def capitalize : Text → Text
  | [] => []
  | c :: rest => c.toUpper :: rest.map Char.toLower

/-- The name that a component exports: its id with each segment capitalized and the separators
gone. -/
def componentName (t : Text) : Text := (segments (sanitize t)).flatMap capitalize

theorem isAllowed_of_mem_sanitize {t : Text} {c : Char} (h : c ∈ sanitize t) :
    isAllowed c = true :=
  (List.mem_filter.1 h).2

theorem sanitize_sanitize (t : Text) : sanitize (sanitize t) = sanitize t := by
  simp [sanitize, List.filter_filter]

end CanvasLift.Identifier
