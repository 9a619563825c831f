import CanvasLift.Command.Grammar
import CanvasLift.Text.Blank

namespace CanvasLift.Command.Help

def width : Nat := 78

def descriptionLimit : Nat := 24

def spaces (n : Nat) : Text := List.replicate n ' '

def fillFrom (columns : Nat) : (line : List Text) → (used : Nat) → List Text → List (List Text)
  | line, _, [] => [line]
  | line, used, word :: rest =>
    if line ≠ [] ∧ columns < used + 1 + word.length then
      line :: fillFrom columns [word] word.length rest
    else fillFrom columns (line ++ [word]) (used + 1 + word.length) rest

def wordsOf (t : Text) : List Text := (Text.splitOn ' ' t).filter (· ≠ [])

def fill (columns : Nat) (t : Text) : List Text :=
  match wordsOf t with
  | [] => []
  | word :: rest => (fillFrom columns [word] word.length rest).map (Text.joinWith " ")

def switchUsage (s : Switch) : Text :=
  let name := s.names.headD []
  match s.argument with
  | some a => "[" ++ name ++ " " ++ a ++ "]"
  | none => "[" ++ name ++ "]"

def choices (g : Grammar) : Text :=
  "\x7b" ++ Text.joinWith "," (g.commands.map (·.1)) ++ "\x7d"

def operandUsage (g : Grammar) (o : Operand) : Text :=
  match o.arity with
  | .one => o.name
  | .optional => "[" ++ o.name ++ "]"
  | .command => choices g ++ " ..."

def usageLines (margin : Nat) (front : Text) (parts : List Text) : List Text :=
  match parts with
  | [] => []
  | part :: rest =>
    match fillFrom width [part] (margin + part.length) rest with
    | [] => []
    | line :: lines =>
      (front ++ Text.joinWith " " line) ::
        lines.map fun line ↦ spaces margin ++ Text.joinWith " " line

def usage (g : Grammar) : Text :=
  let front : Text := "usage: " ++ g.program ++ " "
  let switches := g.switches.map switchUsage
  let operands := (g.operand.map (operandUsage g)).toList
  let whole := front ++ Text.joinWith " " (switches ++ operands)
  if whole.length ≤ width then whole ++ "\n"
  else
    let margin := front.length
    Text.unlines (usageLines margin front switches ++ usageLines margin (spaces margin) operands)
      ++ "\n"

def switchHeader (s : Switch) : Text :=
  Text.joinWith ", " (s.names.map fun name ↦
    match s.argument with
    | some a => name ++ " " ++ a
    | none => name)

def operandHeader (g : Grammar) (o : Operand) : Text :=
  if o.arity = .command then choices g else o.name

def descriptionColumn (g : Grammar) : Nat :=
  let headers := g.switches.map switchHeader ++ (g.operand.map (operandHeader g)).toList ++
    g.commands.map fun (name, _) ↦ name
  min descriptionLimit ((headers.map (·.length + 4)).foldl max 0)

def entry (column margin : Nat) (header description : Text) : Text :=
  let lines : List Text := (fill (width - column) description).map (· ++ ['\n'])
  let header : Text := spaces margin ++ header
  match lines with
  | [] => header ++ ['\n']
  | first :: rest =>
    let rest : Text := rest.flatMap (spaces column ++ ·)
    if header.length + 2 ≤ column then
      header ++ spaces (column - header.length) ++ first ++ rest
    else header ++ ['\n'] ++ spaces column ++ first ++ rest

def operandSection (g : Grammar) : Text :=
  match g.operand with
  | none => []
  | some o =>
    let column := descriptionColumn g
    "positional arguments:\n" ++ entry column 2 (operandHeader g o) o.help ++
      (g.commands.flatMap fun (name, help) ↦ entry column 4 name help) ++ "\n"

def switchSection (g : Grammar) : Text :=
  "options:\n" ++
    g.switches.flatMap fun s ↦ entry (descriptionColumn g) 2 (switchHeader s) s.help

def text (g : Grammar) : Text :=
  let description : Text :=
    if g.description = [] then [] else Text.unlines (fill width g.description) ++ "\n\n"
  usage g ++ "\n" ++ description ++ operandSection g ++ switchSection g

end CanvasLift.Command.Help
