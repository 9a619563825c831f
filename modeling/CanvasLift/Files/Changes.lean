import CanvasLift.Files.Tree

/-!
What differs between two trees, place by place in the order of the paths. A directory comes before
what is in it.
-/

namespace CanvasLift

namespace Tree

def locationText (l : Location) : WideText := Text.joinWith [.char '/'] l

def changes (before after : Tree) : List (Location × Option Entry) :=
  let changed := after.entries.filterMap fun (l, e) ↦
    if before.get? l = some e then none else some (l, some e)
  let gone := before.entries.filterMap fun (l, _) ↦
    if (after.get? l).isNone then some (l, none) else none
  (changed ++ gone).mergeSort fun a b ↦ WideText.le (locationText a.1) (locationText b.1)

end Tree

end CanvasLift
