import CanvasLift.Main
import CanvasLift.Proofs.Canvas.Chain
import CanvasLift.Proofs.Canvas.Indentation
import CanvasLift.Proofs.Canvas.Markup
import CanvasLift.Proofs.Canvas.Misread
import CanvasLift.Proofs.Canvas.Props
import CanvasLift.Proofs.Command.Check
import CanvasLift.Proofs.Command.Confinement
import CanvasLift.Proofs.Command.Loading
import CanvasLift.Proofs.Command.Remote
import CanvasLift.Proofs.Command.Replies
import CanvasLift.Proofs.Component.Damage
import CanvasLift.Proofs.Component.ImportPath
import CanvasLift.Proofs.Json.Printing
import CanvasLift.Proofs.Json.Writing
import CanvasLift.Proofs.Project.Deletion
import CanvasLift.Proofs.Project.Document
import CanvasLift.Proofs.Project.Manifest
import CanvasLift.Proofs.Project.Naming
import CanvasLift.Proofs.Project.Plain
import CanvasLift.Proofs.Project.Repetition
import CanvasLift.Proofs.Project.Sequence
import CanvasLift.Proofs.Project.Undo
import CanvasLift.Proofs.Project.Verdict
import CanvasLift.Proofs.Service.Api
import CanvasLift.Proofs.Service.Client
import CanvasLift.Proofs.Service.Transport
import CanvasLift.Proofs.Canvas.Isolation
import CanvasLift.Proofs.Component.Indicator
import CanvasLift.Proofs.Component.BlankLine
import CanvasLift.Proofs.Component.ImportDeclaration
import CanvasLift.Proofs.Component.Importing
import CanvasLift.Proofs.Canvas.Margin
import CanvasLift.Proofs.Project.Shift
import CanvasLift.Proofs.Canvas.Alignment
import CanvasLift.Proofs.Component.Design
import CanvasLift.Proofs.Project.Tag
import CanvasLift.Proofs.Canvas.Classes
import CanvasLift.Proofs.Canvas.Spaces
import CanvasLift.Proofs.Project.Entries
import CanvasLift.Proofs.Canvas.Record
import CanvasLift.Proofs.Files.Agreement
import CanvasLift.Proofs.Project.Lockstep
import CanvasLift.Proofs.Project.Reach
import CanvasLift.Proofs.Command.Switch
import CanvasLift.Proofs.Project.LogFile
import CanvasLift.Proofs.Command.LogFile
