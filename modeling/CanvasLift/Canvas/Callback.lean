import CanvasLift.Canvas.Affordance

/-!
The collapse callback. Outside the canvas nobody listens for it, so every handler becomes the one
that does nothing.
-/

namespace CanvasLift.Canvas

open Pattern

def collapseCallback : Pattern := chain [literal "onCollapsedChange=", braced]

def idleCallback : Text := "onCollapsedChange=\x7b() => \x7b\x7d\x7d"

def normalizeCallbacks (line : Text) : Text := collapseCallback.replace (fun _ ↦ idleCallback) line

end CanvasLift.Canvas
