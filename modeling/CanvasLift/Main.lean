import CanvasLift.Command.Run
import CanvasLift.Files.Changes
import Std.Time.Format

/-!
The program. The places that a command line can touch are read from the disk into a tree before the
run, and what has changed is written back after it. The program itself opens no connection: a
request to the service finds nobody, and of a service only the address is shown.
-/

namespace CanvasLift.Main

open Command

def textOfPath (l : Location) : String := String.ofList ('/' :: (Tree.locationText l).toText)

def selfEntry (l : Location) : IO.FS.DirEntry := ⟨textOfPath l, "."⟩

def isDirectory (l : Location) : IO Bool := (selfEntry l).path.isDir

/-- The tree with what is below a directory. Links are left out, and so is what is in a directory
that is not searched for source files. -/
partial def loadBelow (t : Tree) (l : Location) : IO Tree := do
  let mut t := t.set l .directory
  for e in ← (selfEntry l).path.readDir do
    let name : Name := e.fileName.toList
    match (← e.path.symlinkMetadata).type with
    | .dir =>
      if Deletion.isSearched name then t ← loadBelow t (l ++ [name])
      else t := t.set (l ++ [name]) .directory
    | .file => t := t.set (l ++ [name]) (.file (← IO.FS.readBinFile e.path).toList)
    | _ => pure ()
  return t

def loadPlace (t : Tree) (l : Location) : IO Tree := do
  if ← isDirectory l then return ← loadBelow t l
  try
    return t.set l (.file (← IO.FS.readBinFile (textOfPath l)).toList)
  catch _ => return t

def load (t : Tree) (p : Path) : IO Tree := do
  let l := Path.collapse p.names
  let mut t := t
  for depth in (List.range l.length).drop 1 do
    if ← isDirectory (l.take depth) then
      t := t.set (l.take depth) .directory
  loadPlace t l

def loadAll (t : Tree) (ps : List Path) : IO Tree := ps.foldlM load t

def homesOf (lines : List Text) : List (Text × Text) :=
  lines.filterMap fun line ↦
    match Text.splitOn ':' line with
    | user :: _ :: _ :: _ :: _ :: home :: _ => some (user, home)
    | _ => none

def host : IO Host := do
  let current := (← IO.currentDir).toString.toList
  let users ← try IO.FS.readFile "/etc/passwd" catch _ => pure ""
  return .withYaml (.ofText (.ofText current)) ((← IO.getEnv "HOME").getD "/").toList
    (homesOf (Text.lines users.toList))

def placesOfLine (h : Host) (line : Line) : List Path :=
  let document := match line.action with
    | .extract _ document => document
    | _ => none
  let named := [line.logFile, document].filterMap fun given ↦
    (given.bind Given.word?).map fun t ↦ Path.ofText t
  let project := (line.project.word?.bind fun t ↦ h.expand? (.ofText t)).toList
  (project ++ named).map h.absolute

def placesOfSettings (s : Settings) : List Path :=
  [s.sourceDocument, s.sourceDirectory, s.componentsDirectory]

/-- The part of the disk that a command line can touch. -/
def loadFor (h : Host) (words : List Text) : IO Tree := do
  match Line.ofWords words with
  | .error _ => return .empty
  | .ok line =>
    let t ← loadAll .empty (h.current :: placesOfLine h line)
    match line.project.word?.map fun p ↦ Settings.loadResolved h t (.ofText p) with
    | some (.ok s) => loadAll t (placesOfSettings s)
    | _ => return t

def removePlace (l : Location) : IO Unit := do
  if ← isDirectory l then IO.FS.removeDirAll (textOfPath l)
  else try IO.FS.removeFile (textOfPath l) catch _ => pure ()

def writePlace : Location × Option Entry → IO Unit
  | (l, some (.file content)) => IO.FS.writeBinFile (textOfPath l) ⟨content.toArray⟩
  | (l, some .directory) => IO.FS.createDirAll (textOfPath l)
  | (l, none) => removePlace l

def now : IO Text := do
  return ((← Std.Time.PlainDateTime.now).format "uuuu-MM-dd HH:mm:ss,SSS").toList

def servingText (s : Serving) : WideText :=
  s.root.toText ++ .ofText " at " ++ s.host ++ .ofText (":" ++ Text.ofInt s.portNumber ++ "\n")

/-- How many arrays and objects the reader of the replies goes deep. -/
def depth : Nat := 980

/-- The console shows a half by its number. -/
def shown (w : WideText) : String :=
  String.ofList (w.flatMap fun
    | .char c => [c]
    | s => WideText.quotedSymbol '"' s)

def run (words : List Text) : IO UInt32 := do
  let h ← host
  let before ← loadFor h words
  let around : Surroundings :=
    ⟨h, fun _ ↦ .unreachable "Connection refused", depth, ← now, fun _ ↦ []⟩
  let (o, after) := Run.ofWords around words before
  (Tree.changes before after).forM writePlace
  IO.print (shown (o.out ++ (o.serving.map servingText).getD []))
  IO.eprint (shown o.err)
  match o.ending with
  | .ok code => return code.toUInt32
  | .error fault =>
    IO.eprintln (shown fault.message)
    return 1

end CanvasLift.Main

def main (args : List String) : IO UInt32 := CanvasLift.Main.run (args.map String.toList)
