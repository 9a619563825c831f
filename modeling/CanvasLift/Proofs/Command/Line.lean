import CanvasLift.Command.Line

namespace CanvasLift.Command

namespace Grammar

variable {word : Text}

end Grammar

namespace Line

end Line

end CanvasLift.Command
