import CanvasLift.Pattern
import CanvasLift.Text.Blank

/-!
The outside symbols that markup uses: icons from a closed catalog and one shared sub-component. A
symbol is used where its tag opens.
-/

namespace CanvasLift.Component

open Pattern

def glyphCatalog : List Text :=
  ["Catalog", "ArrowLeft", "Add", "Copy", "Share", "TrashCan", "Document", "User", "Search",
   "Application", "Category"]

def glyphModule : Text := "@carbon/icons-react"

def subComponent : Text := "StackSidebar"

def subComponentModule : Text := "@/components/stack-sidebar"

structure Dependencies where
  glyphs : List Text
  usesSubComponent : Bool
  deriving DecidableEq

def openTag (name : Text) : Pattern :=
  chain [literal "<", literal name, one fun c ↦ Text.isBlank c || c = '/' || c = '>']

def Dependencies.ofBody (body : Text) : Dependencies :=
  ⟨glyphCatalog.filter fun name ↦ (openTag name).occursIn body,
   (openTag subComponent).occursIn body⟩

end CanvasLift.Component
