import CanvasLift.Files.Tree

/-!
The records that a run leaves, and the logger that shows them: on the console from a level on, and all
of them in a log file. A logger outlasts the run that sets it up.
-/

namespace CanvasLift.Log

inductive Level
  | debug
  | info
  | warning
  | error
  deriving DecidableEq

namespace Level

def name : Level → Text
  | debug => "DEBUG"
  | info => "INFO"
  | warning => "WARNING"
  | error => "ERROR"

def rank : Level → Nat
  | debug => 0
  | info => 1
  | warning => 2
  | error => 3

end Level

def rootChannel : Text := "canvasgen"

/-- The full name of a channel; the root stands for a name that is missing or empty. -/
def channelName : Option Text → Text
  | none | some [] => rootChannel
  | some name => rootChannel ++ "." ++ name

structure Record where
  level : Level
  channel : Text
  message : WideText
  deriving DecidableEq

namespace Record

def consoleLine (r : Record) : WideText :=
  .ofText ("[" ++ rootChannel ++ "] " ++ r.level.name ++ " ") ++ r.message ++ .ofText "\n"

def fileLine (time : Text) (r : Record) : WideText :=
  .ofText (time ++ " " ++ r.level.name ++ " " ++ channelName (some r.channel) ++ ": ") ++
    r.message ++ .ofText "\n"

/-- Whether a file can have the record. Its message alone can have halves in it. -/
def isEncodable (r : Record) : Bool := r.message.text?.isSome

/-- What is shown of a record that cannot be written, where `trace` says how it came about. -/
def complaint (trace : Record → Text) (r : Record) : WideText :=
  .ofText ("--- Logging error ---\n" ++ trace r)

end Record

def console (least : Level) (records : List Record) : WideText :=
  (records.filter fun r ↦ least.rank ≤ r.level.rank).flatMap Record.consoleLine

inductive Sink
  | console
  | file (place : Location)
  deriving DecidableEq

/-- A handler hands the records from a level on, or all of them, to its sink. -/
structure Handler where
  sink : Sink
  least : Option Level
  deriving DecidableEq

namespace Handler

def takes (h : Handler) (r : Record) : Bool := h.least.all fun least ↦ least.rank ≤ r.level.rank

def shows (trace : Record → Text) (h : Handler) (r : Record) : WideText :=
  match h.sink with
  | .console => r.consoleLine
  | .file _ => if r.isEncodable then [] else r.complaint trace

def place? (h : Handler) : Option Location :=
  match h.sink with
  | .console => none
  | .file place => some place

end Handler

/-- The logger at the root of the channels. The channels below it have no level and no handlers of
their own: whatever channel a record is of, it goes to all the handlers here if it reaches the level. -/
structure Logger where
  least : Level
  handlers : List Handler

namespace Logger

def initial : Logger := ⟨.warning, []⟩

def takers (g : Logger) (r : Record) : List Handler :=
  if g.least.rank ≤ r.level.rank then g.handlers.filter (·.takes r) else []

def shown (trace : Record → Text) (g : Logger) (records : List Record) : WideText :=
  records.flatMap fun r ↦ (g.takers r).flatMap (·.shows trace r)

def places (g : Logger) (r : Record) : List Location := (g.takers r).filterMap Handler.place?

def writesFiles (g : Logger) : Bool := g.handlers.any (·.place?.isSome)

def without (g : Logger) (h : Handler) : Logger := { g with handlers := g.handlers.erase h }

def cleared (g : Logger) : Logger := g.handlers.foldl without g

/-- The logger set up for a run: its console shows the records from a level on, and a log file, if
there is one, has them all. -/
def configured (g : Logger) (least : Level) (file : Option Location) : Logger :=
  match file with
  | none => ⟨least, g.cleared.handlers ++ [⟨.console, none⟩]⟩
  | some place =>
    ⟨.debug, g.cleared.handlers ++ [⟨.console, some least⟩, ⟨.file place, some .debug⟩]⟩

end Logger

end CanvasLift.Log
