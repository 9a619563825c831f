import CanvasLift.Files.Access

/-!
The files below a directory in the order of a walk from the top: the files of a directory by their
names, then its subdirectories by their names, each with all that is in it.
-/

namespace CanvasLift

namespace Tree

def walkLe : List Name → List Name → Bool
  | [], _ => true
  | _, [] => false
  | [x], [y] => WideText.le x y
  | [_], _ :: _ => true
  | _ :: _, [_] => false
  | x :: xs, y :: ys => if x = y then walkLe xs ys else WideText.le x y

/-- The names that lead from a location to the files below it, in walk order, where `enters` tells
which directories are entered. -/
def walk (t : Tree) (top : Location) (enters : Name → Bool) : List (List Name) :=
  let below := t.entries.filterMap fun
    | (l, .file _) => if top <+: l ∧ l.length ≠ top.length then some (l.drop top.length) else none
    | (_, .directory) => none
  (below.filter fun names ↦ names.dropLast.all enters).mergeSort walkLe

def namesIn (t : Tree) (l : Location) : List Name :=
  ((t.children l).map Prod.fst).mergeSort WideText.le

end Tree

end CanvasLift
