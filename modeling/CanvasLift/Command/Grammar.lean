import CanvasLift.Number.Reader

/-!
Command lines: switches that start with a dash, and at most one operand. A switch may be shortened as
long as it is the only one that starts so, short switches without arguments may be joined, and after
two dashes everything is an operand.
-/

namespace CanvasLift.Command

inductive Role
  | help
  | flag
  | text
  | whole
  deriving DecidableEq

structure Switch where
  names : List Text
  argument : Option Text
  help : Text
  role : Role
  deriving DecidableEq

inductive Arity
  | one
  | optional
  | command
  deriving DecidableEq

structure Operand where
  name : Text
  help : Text
  arity : Arity
  deriving DecidableEq

structure Grammar where
  program : Text
  description : Text
  switches : List Switch
  operand : Option Operand
  commands : List (Text × Text)

inductive Misuse
  | ambiguous (word : Text) (matching : List Text)
  | argumentMissing (switch : Switch)
  | argumentUnused (switch : Switch) (argument : Text)
  | notWhole (switch : Switch) (argument : Text)
  | unknownCommand (operand : Operand) (word : Text) (commands : List Text)
  | operandMissing (name : Text)
  | unrecognized (words : List Text)
  deriving DecidableEq

def Switch.label (s : Switch) : Text := Text.joinWith "/" s.names

def Misuse.message : Misuse → Text
  | .ambiguous word names =>
    "ambiguous option: " ++ word ++ " could match " ++ Text.joinWith ", " names
  | .argumentMissing switch => "argument " ++ switch.label ++ ": expected one argument"
  | .argumentUnused switch argument =>
    "argument " ++ switch.label ++ ": ignored explicit argument " ++ Text.quoted argument
  | .notWhole switch argument =>
    "argument " ++ switch.label ++ ": invalid int value: " ++ Text.quoted argument
  | .unknownCommand operand word commands =>
    "argument " ++ operand.name ++ ": invalid choice: " ++ Text.quoted word ++ " (choose from " ++
      Text.joinWith ", " (commands.map Text.quoted) ++ ")"
  | .operandMissing name => "the following arguments are required: " ++ name
  | .unrecognized words => "unrecognized arguments: " ++ Text.joinWith " " words

/-- What a word of a command line is taken for: a switch, which may be unknown, with the name it goes
by and the argument inside the word; an operand; or the two dashes. -/
inductive Mark
  | switch (found : Option Switch) (name : Text) (inside : Option Text)
  | operand
  | dashes

/-- What is given for a switch. Two dashes inside the word of a switch are no argument, and yet the
switch is given. -/
inductive Given
  | word (t : Text)
  | nothing
  deriving DecidableEq

def Given.word? : Given → Option Text
  | word t => some t
  | nothing => none

structure Reading where
  given : List (Text × Given)
  operand : Option (List Text)
  extras : List Text

inductive Stop
  | help
  | misuse (m : Misuse)

namespace Grammar

def names (g : Grammar) : List (Text × Switch) :=
  g.switches.flatMap fun s ↦ s.names.map (·, s)

def named? (g : Grammar) (name : Text) : Option Switch := g.names.lookup name

def startsWith (front t : Text) : Bool := (Text.dropFront? front t).isSome

/-- The switches that a word may be short for. -/
def candidates (g : Grammar) (word : Text) : List (Text × Switch × Option Text) :=
  match word with
  | '-' :: '-' :: _ =>
    let (front, inside) := match Text.cut? '=' word with
      | some (front, inside) => (front, some inside)
      | none => (word, none)
    (g.names.filter fun (name, _) ↦ startsWith front name).map fun (name, s) ↦ (name, s, inside)
  | _ =>
    g.names.filterMap fun (name, s) ↦
      if name = word.take 2 then some (name, s, some (word.drop 2))
      else if startsWith word name then some (name, s, none)
      else none

def isDigit (c : Char) : Bool := (Number.decimalDigit? c).isSome

/-- A dash and a decimal number with or without a point. A line feed at its end does not count. -/
def isNegativeNumber (word : Text) : Bool :=
  let word := if word.getLast? = some '\n' then word.dropLast else word
  match word with
  | '-' :: rest =>
    let digits := rest.dropWhile isDigit
    match digits with
    | [] => rest ≠ []
    | '.' :: fraction => fraction ≠ [] && fraction.all isDigit
    | _ => false
  | _ => false

def mark (g : Grammar) (word : Text) : Except Misuse Mark :=
  match word with
  | [] | ['-'] => .ok .operand
  | c :: _ =>
    if c ≠ '-' then .ok .operand
    else match g.named? word with
      | some s => .ok (.switch (some s) word none)
      | none =>
        let whole? := (Text.cut? '=' word).bind fun (name, inside) ↦
          (g.named? name).map fun s ↦ Mark.switch (some s) name (some inside)
        match whole?, g.candidates word with
        | some m, _ => .ok m
        | none, [(name, s, inside)] => .ok (.switch (some s) name inside)
        | none, [] =>
          .ok (if isNegativeNumber word || ' ' ∈ word then .operand else .switch none word none)
        | none, several => .error (.ambiguous word (several.map (·.1)))

def marks (g : Grammar) : List Text → Except Misuse (List (Text × Mark))
  | [] => .ok []
  | word :: rest =>
    if word = ['-', '-'] then .ok ((word, .dashes) :: rest.map (·, .operand))
    else do return (word, ← g.mark word) :: (← g.marks rest)

def isOperand : Text × Mark → Bool
  | (_, .operand) => true
  | _ => false

def isDashes : Text × Mark → Bool
  | (_, .dashes) => true
  | _ => false

def isSwitch : Text × Mark → Bool
  | (_, .switch _ _ _) => true
  | _ => false

def operandLength? (arity : Arity) (words : List (Text × Mark)) : Option Nat :=
  let front := (words.takeWhile isDashes).length
  let rest := words.drop front
  match rest.head?.any isOperand, arity with
  | true, .command => some words.length
  | true, _ => some (front + 1 + (rest.tail.takeWhile isDashes).length)
  | false, .optional => some front
  | false, _ => none

/-- The words of an operand, without the two dashes unless they belong to a command. -/
def operandWords (arity : Arity) (words : List Text) : List Text :=
  if arity = .command then words else words.erase ['-', '-']

def key (s : Switch) : Text := (s.names.getLastD []).dropWhile (· = '-')

def apply (s : Switch) (argument : Text) (r : Reading) : Except Stop Reading :=
  match s.role with
  | .help => .error .help
  | .whole =>
    if argument = ['-', '-'] then .ok { r with given := (key s, .nothing) :: r.given }
    else match Number.whole 10 argument with
      | .ok _ => .ok { r with given := (key s, .word argument) :: r.given }
      | .error _ => .error (.misuse (.notWhole s argument))
  | .flag | .text =>
    let given := if argument = ['-', '-'] then .nothing else .word argument
    .ok { r with given := (key s, given) :: r.given }

/-- The switches without arguments that are joined behind one dash, from `s` with `inside` behind it
on, and what stands behind the last of them. -/
def joined (g : Grammar) : (fuel : Nat) → Switch → Text → Except Misuse (List Switch × Switch)
  | 0, s, inside => .error (.argumentUnused s inside)
  | fuel + 1, s, inside =>
    match inside with
    | [] => .error (.argumentUnused s inside)
    | c :: rest =>
      match g.named? ['-', c] with
      | none => .error (.argumentUnused s inside)
      | some next =>
        if rest = [] then .ok ([s], next)
        else do
          let (before, last) ← joined g fuel next rest
          return (s :: before, last)

def switchesIn (g : Grammar) (s : Switch) (name : Text) (inside : Option Text)
    (rest : List (Text × Mark)) : Except Misuse (List (Switch × Text) × List (Text × Mark)) :=
  match s.argument, inside with
  | some _, some argument => .ok ([(s, argument)], rest)
  | some _, none =>
    match rest with
    | (argument, .operand) :: rest => .ok ([(s, argument)], rest)
    | _ => .error (.argumentMissing s)
  | none, none => .ok ([(s, [])], rest)
  | none, some argument =>
    if name.take 2 = ['-', '-'] then .error (.argumentUnused s argument)
    else do
      let (before, last) ← g.joined argument.length s argument
      return ((before ++ [last]).map (·, []), rest)

def liftMisuse {α : Type} (r : Except Misuse α) : Except Stop α :=
  match r with
  | .ok a => .ok a
  | .error m => .error (.misuse m)

def takeOperand (g : Grammar) (r : Reading) (words : List (Text × Mark)) :
    Reading × List (Text × Mark) :=
  match g.operand, r.operand with
  | some o, none =>
    match operandLength? o.arity words with
    | some n =>
      ({ r with operand := some (operandWords o.arity ((words.take n).map (·.1))) }, words.drop n)
    | none => (r, words)
  | _, _ => (r, words)

def read (g : Grammar) : (fuel : Nat) → Reading → List (Text × Mark) → Except Stop Reading
  | 0, r, words => .ok { r with extras := r.extras ++ words.map (·.1) }
  | fuel + 1, r, words =>
    if !words.any isSwitch then
      let (r, words) := g.takeOperand r words
      .ok { r with extras := r.extras ++ words.map (·.1) }
    else
      let (taken, left) := if words.head?.any isSwitch then (r, words) else g.takeOperand r words
      if left.length < words.length then read g fuel taken left
      else
        let skipped := words.takeWhile fun w ↦ !isSwitch w
        let taken := { taken with extras := taken.extras ++ skipped.map (·.1) }
        match words.drop skipped.length with
        | (_, .switch (some s) name inside) :: rest => do
          let (found, rest) ← liftMisuse (g.switchesIn s name inside rest)
          read g fuel (← found.foldlM (fun r (s, argument) ↦ apply s argument r) taken) rest
        | (word, _) :: rest => read g fuel { taken with extras := taken.extras ++ [word] } rest
        | [] => .ok taken

/-- The operand has to be there, unless it is optional, and a command has to be a known one. -/
def ensureOperand (g : Grammar) (r : Reading) : Except Misuse Unit :=
  match g.operand, r.operand with
  | some o, none => if o.arity = .optional then .ok () else .error (.operandMissing o.name)
  | some o, some (word :: _) =>
    if o.arity = .command ∧ (g.commands.lookup word).isNone then
      .error (.unknownCommand o word (g.commands.map (·.1)))
    else .ok ()
  | _, _ => .ok ()

def parse (g : Grammar) (words : List Text) : Except Stop Reading := do
  let marked ← liftMisuse (g.marks words)
  let r ← g.read (words.length + 1) ⟨[], none, []⟩ marked
  liftMisuse (g.ensureOperand r)
  return r

end Grammar

end CanvasLift.Command
