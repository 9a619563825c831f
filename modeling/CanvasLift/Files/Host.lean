import CanvasLift.Files.Access
import CanvasLift.Yaml.Value

/-!
What surrounds a run: the directory that relative paths start from, the homes of the users, and how
documents are read.
-/

namespace CanvasLift

/-- The last two fields say what document is in a text, and what is wrong with a text that has none. -/
structure Host where
  current : Path
  home : Text
  homes : List (Text × Text)
  document : Text → Except Yaml.Fault Yaml.Value
  problem : Text → Text

namespace Host

def home? (h : Host) : Name → Option Text
  | [.char '~'] => some h.home
  | .char '~' :: user => (WideText.text? user).bind fun name ↦ h.homes.lookup name
  | _ => none

def expand? (h : Host) (p : Path) : Option Path :=
  match p.anchor, p.names with
  | .here, (.char '~' :: user) :: rest =>
    (h.home? (.char '~' :: user)).map fun home ↦ (Path.ofText home).join ⟨.here, rest⟩
  | _, _ => some p

def userFault? (p : Path) : Option FileFault :=
  match p.names with
  | (.char '~' :: user) :: _ => FileFault.ofName? user
  | _ => none

def absolute (h : Host) (p : Path) : Path := h.current.join p

/-- The absolute path with each `..` undone as it is written, without a look at the tree. -/
def collapsed (h : Host) (p : Path) : Path :=
  ⟨(h.absolute p).anchor, Path.collapse (h.absolute p).names⟩

def resolve (h : Host) (p : Path) : Except FileFault Path :=
  match FileFault.ofName? p.toText with
  | some fault => .error fault
  | none => .ok (Path.resolve h.current p)

end Host

def FileFault.as (p : Path) : FileFault → FileFault
  | .refused refusal _ => .refused refusal p
  | fault => fault

end CanvasLift
