import CanvasLift.Command.Help

/-!
The command lines of the program: what one asks for, or what is shown in place of an answer.
-/

namespace CanvasLift.Command

inductive Name
  | extract
  | generate
  | delete
  | check
  | serve
  deriving DecidableEq

/-- What a command line asks for. A path that is given as nothing cannot be used. -/
inductive Action
  | extract (id : Text) (document : Option Given)
  | generate (id : Text) (remote : Bool)
  | delete (id : Text)
  | check (component : Option Text)
  | serve (host : Option Text) (portNumber : Option Int)

structure Line where
  verbose : Bool
  logFile : Option Given
  project : Given
  action : Action

def programName : Text := "canvasgen"

def helpSwitch : Switch := ⟨["-h", "--help"], none, "show this help message and exit", .help⟩

def verboseSwitch : Switch :=
  ⟨["-v", "--verbose"], none, "Increase log verbosity for troubleshooting.", .flag⟩

def logFileSwitch : Switch :=
  ⟨["--log-file"], some "LOG_FILE", "Also append debug-level logs to this file.", .text⟩

def projectSwitch : Switch :=
  ⟨["--project"], some "PROJECT",
    "Path to the project root holding .canvasgen.yml (defaults to current directory).", .text⟩

def sourceSwitch : Switch :=
  ⟨["--source"], some "SOURCE", "Canvas document to read instead of the configured one.", .text⟩

def remoteSwitch : Switch :=
  ⟨["--remote"], none,
    "Ask the running canvasgen service to generate instead of writing locally.", .flag⟩

def hostSwitch : Switch := ⟨["--host"], some "HOST", "Bind address.", .text⟩

def portSwitch : Switch := ⟨["--port"], some "PORT", "Bind port.", .whole⟩

def idOperand : Operand := ⟨"component_id", "Element type, e.g. card-2.", .one⟩

def componentOperand : Operand :=
  ⟨"component", "Single component id or file to check (defaults to every component).", .optional⟩

def commandOperand : Operand := ⟨"command", [], .command⟩

namespace Name

def all : List Name := [extract, generate, delete, check, serve]

def text : Name → Text
  | extract => "extract"
  | generate => "generate"
  | delete => "delete"
  | check => "check"
  | serve => "serve"

def ofText? (t : Text) : Option Name := all.find? fun n ↦ n.text = t

def help : Name → Text
  | extract => "Print the component source extracted from the canvas document."
  | generate => "Write src/components/<id>.tsx from the canvas (template fallback)."
  | delete => "Delete a generated component and remove its imports and usages."
  | check => "Fail when generated components are still placeholder stubs."
  | serve => "Run the HTTP generation service."

def ownSwitches : Name → List Switch
  | extract => [sourceSwitch]
  | generate => [remoteSwitch]
  | delete | check => []
  | serve => [hostSwitch, portSwitch]

def operand? : Name → Option Operand
  | extract | generate | delete => some idOperand
  | check => some componentOperand
  | serve => none

def grammar (n : Name) : Grammar where
  program := programName ++ " " ++ n.text
  description := []
  switches := [helpSwitch, verboseSwitch, projectSwitch] ++ n.ownSwitches
  operand := n.operand?
  commands := []

end Name

def mainGrammar : Grammar where
  program := programName
  description := "Promote canvas elements into standalone component files."
  switches := [helpSwitch, verboseSwitch, logFileSwitch]
  operand := some commandOperand
  commands := Name.all.map fun n ↦ (n.text, n.help)

namespace Reading

def value? (r : Reading) (s : Switch) : Option Given := r.given.lookup (Grammar.key s)

def word? (r : Reading) (s : Switch) : Option Text := (r.value? s).bind Given.word?

def operandWords (r : Reading) : List Text := r.operand.getD []

end Reading

def Name.action (r : Reading) : Name → Action
  | extract => .extract (r.operandWords.headD []) (r.value? sourceSwitch)
  | generate => .generate (r.operandWords.headD []) (r.value? remoteSwitch).isSome
  | delete => .delete (r.operandWords.headD [])
  | check => .check r.operandWords.head?
  | serve => .serve (r.word? hostSwitch)
      ((r.word? portSwitch).bind fun t ↦ (Number.whole 10 t).toOption)

inductive Notice
  | help (text : Text)
  | misuse (text : Text)

def Notice.of (g : Grammar) : Stop → Notice
  | .help => .help (Help.text g)
  | .misuse m => .misuse (Help.usage g ++ g.program ++ ": error: " ++ m.message ++ "\n")

def Grammar.readFor (g : Grammar) (words : List Text) : Except Notice Reading :=
  (g.parse words).mapError (Notice.of g)

namespace Line

def command? (r : Reading) : Option (Name × List Text) := do
  match r.operandWords with
  | word :: rest => return (← Name.ofText? word, rest)
  | [] => none

def ofWords (words : List Text) : Except Notice Line := do
  let whole ← mainGrammar.readFor words
  match command? whole with
  | none => throw (.of mainGrammar (.misuse (.operandMissing commandOperand.name)))
  | some (name, rest) =>
    let own ← name.grammar.readFor rest
    let extras := whole.extras ++ own.extras
    if extras ≠ [] then throw (.of mainGrammar (.misuse (.unrecognized extras)))
    return {
      verbose := (whole.value? verboseSwitch).isSome || (own.value? verboseSwitch).isSome
      logFile := whole.value? logFileSwitch
      project := (own.value? projectSwitch).getD (.word ".")
      action := name.action own }

end Line

end CanvasLift.Command
