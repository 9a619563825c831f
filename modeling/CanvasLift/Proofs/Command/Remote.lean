import CanvasLift.Proofs.Command.Line
import CanvasLift.Proofs.Command.Run
import CanvasLift.Proofs.Service.Client
import CanvasLift.Proofs.Service.Transport

namespace CanvasLift.Command.Run

variable {around : Surroundings} {s : Settings} {t : Tree} {line : Line} {project : Text}

end CanvasLift.Command.Run
