import CanvasLift.Text.Wide

/-!
Paths as they are written: where they start and the names on the way. Writing a path down loses
repeated slashes and single dots, but keeps `..`, whose meaning depends on the tree.
-/

namespace CanvasLift

/-- The name of a file. A half in it stands for a byte, if for anything. -/
abbrev Name := WideText

/-- Where a path starts. Two slashes in front, unlike any other number, are kept apart. -/
inductive Anchor
  | here
  | root
  | doubleRoot
  deriving DecidableEq

structure Path where
  anchor : Anchor
  names : List Name
  deriving DecidableEq

namespace Path

def up : Name := ".."

def splitAnchor (w : WideText) : Anchor × WideText :=
  let rest := w.dropWhile (· = .char '/')
  match w.length - rest.length with
  | 0 => (.here, rest)
  | 2 => (.doubleRoot, rest)
  | _ => (.root, rest)

def ofText (w : WideText) : Path :=
  let (anchor, rest) := splitAnchor w
  ⟨anchor, (Text.splitOn (.char '/') rest).filter fun name ↦ name ≠ [] && name ≠ [.char '.']⟩

def toText (p : Path) : WideText :=
  let names := Text.joinWith [.char '/'] p.names
  match p.anchor with
  | .here => if p.names = [] then [.char '.'] else names
  | .root => .char '/' :: names
  | .doubleRoot => .char '/' :: .char '/' :: names

def isAbsolute (p : Path) : Bool := p.anchor ≠ .here

def join (p q : Path) : Path := if q.isAbsolute then q else ⟨p.anchor, p.names ++ q.names⟩

def child (p : Path) (name : Name) : Path := ⟨p.anchor, p.names ++ [name]⟩

def parent (p : Path) : Path := ⟨p.anchor, p.names.dropLast⟩

def name (p : Path) : Name := p.names.getLastD []

/-- The ending of the last name from its last dot on, which neither starts nor ends the name. -/
def suffix (p : Path) : WideText :=
  let ending := p.name.reverse.takeWhile (· ≠ .char '.')
  if ending = [] ∨ p.name.length ≤ ending.length + 1 then [] else .char '.' :: ending.reverse

def below? (top p : Path) : Option (List Name) :=
  if top.anchor = p.anchor ∧ top.names <+: p.names then some (p.names.drop top.names.length)
  else none

def relativeTo (top p : Path) : WideText :=
  match top.below? p with
  | some names => toText ⟨.here, names⟩
  | none => p.toText

/-- The names with each `..` undone together with the name before it; at the top it is dropped. -/
def collapse (names : List Name) : List Name :=
  names.foldl (fun done name ↦ if name = up then done.dropLast else done ++ [name]) []

def resolve (base p : Path) : Path := ⟨.root, collapse (base.join p).names⟩

end Path

end CanvasLift
