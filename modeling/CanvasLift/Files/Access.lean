import CanvasLift.Files.Tree

/-!
Access to a tree by absolute paths. A path is followed name by name: each name is looked up in a
directory, and `..` leaves the directory reached so far.
-/

namespace CanvasLift

inductive Refusal
  | missing
  | exists
  | notDirectory
  | isDirectory
  | nameTooLong
  deriving DecidableEq

namespace Refusal

def code : Refusal → Nat
  | .missing => 2
  | .exists => 17
  | .notDirectory => 20
  | .isDirectory => 21
  | .nameTooLong => 36

def reason : Refusal → Text
  | .missing => "No such file or directory"
  | .exists => "File exists"
  | .notDirectory => "Not a directory"
  | .isDirectory => "Is a directory"
  | .nameTooLong => "File name too long"

end Refusal

/-- An operation on a path that fails. A path that cannot be encoded reaches no file system, and
neither does one with a null character in it. -/
inductive FileFault
  | refused (refusal : Refusal) (path : Path)
  | unencodable (fault : WideText.Fault)
  | nullCharacter
  deriving DecidableEq

namespace FileFault

def message : FileFault → Text
  | .refused refusal path =>
    "[Errno " ++ Text.ofNat refusal.code ++ "] " ++ refusal.reason ++ ": " ++
      WideText.quoted path.toText
  | .unencodable fault => fault.message
  | .nullCharacter => "embedded null byte"

def ofName? (w : WideText) : Option FileFault :=
  match w.faultFrom? Symbol.isByte 0 with
  | some fault => some (.unencodable fault)
  | none => if .char '\x00' ∈ w then some .nullCharacter else none

end FileFault

namespace Tree

def nameLimit : Nat := 255

/-- One more byte than a whole path may have. -/
def pathLimit : Nat := 4096

def follow (t : Tree) : (here : Location) → (names : List Name) → Except Refusal Location
  | here, [] => .ok here
  | here, name :: rest =>
    match t.get? here with
    | none => .error .missing
    | some (.file _) => .error .notDirectory
    | some .directory =>
      if name = Path.up then t.follow here.dropLast rest
      else if nameLimit < name.bytes.length then .error .nameTooLong
      else t.follow (here ++ [name]) rest

def locate (t : Tree) (p : Path) : Except FileFault Location :=
  match FileFault.ofName? p.toText with
  | some fault => .error fault
  | none =>
    if pathLimit ≤ p.toText.bytes.length then .error (.refused .nameTooLong p)
    else match t.follow [] p.names with
      | .ok l => .ok l
      | .error refusal => .error (.refused refusal p)

/-- What is at a path. Nothing is where the path leads nowhere; a name that is too long is a
fault. -/
def stat (t : Tree) (p : Path) : Except FileFault (Option Entry) :=
  match t.locate p with
  | .ok l => .ok (t.get? l)
  | .error (.refused .nameTooLong q) => .error (.refused .nameTooLong q)
  | .error _ => .ok none

def isDirectory (t : Tree) (p : Path) : Except FileFault Bool :=
  (t.stat p).map (· = some .directory)

def isFile (t : Tree) (p : Path) : Except FileFault Bool :=
  (t.stat p).map fun
    | some (.file _) => true
    | _ => false

def read (t : Tree) (p : Path) : Except FileFault Bytes := do
  let l ← t.locate p
  match t.get? l with
  | some (.file content) => .ok content
  | some .directory => .error (.refused .isDirectory p)
  | none => .error (.refused .missing p)

def write (t : Tree) (p : Path) (content : Bytes) : Except FileFault Tree := do
  let l ← t.locate p
  match t.get? l with
  | some .directory => .error (.refused .isDirectory p)
  | _ => .ok (t.set l (.file content))

def append (t : Tree) (l : Location) (more : Bytes) : Tree :=
  match t.get? l with
  | some (.file content) => t.set l (.file (content ++ more))
  | _ => t

def makeDirectory (t : Tree) (p : Path) : Except FileFault Tree := do
  let l ← t.locate p
  match t.get? l with
  | some _ => .error (.refused .exists p)
  | none => .ok (t.set l .directory)

def orPresent (t : Tree) (p : Path) (fault : FileFault) : Except FileFault Unit :=
  match t.isDirectory p with
  | .ok true => .ok ()
  | .ok false => .error fault
  | .error other => .error other

/-- Makes a directory, and before it those that are missing on the way to it, given its names from
the last to the first. What was made before a fault stays. -/
def makeDirectoriesAt (t : Tree) (anchor : Anchor) : List Name → Except FileFault Unit × Tree
  | [] => (t.orPresent ⟨anchor, []⟩ (.refused .exists ⟨anchor, []⟩), t)
  | name :: above =>
    let p : Path := ⟨anchor, (name :: above).reverse⟩
    match t.makeDirectory p with
    | .ok made => (.ok (), made)
    | .error (.refused .missing _) =>
      match t.makeDirectoriesAt anchor above with
      | (.error fault, made) => (.error fault, made)
      | (.ok (), made) =>
        match made.makeDirectory p with
        | .ok made => (.ok (), made)
        | .error (.refused .missing q) => (.error (.refused .missing q), made)
        | .error fault => (made.orPresent p fault, made)
    | .error (.refused refusal q) => (t.orPresent p (.refused refusal q), t)
    | .error fault => (.error fault, t)

def makeDirectories (t : Tree) (p : Path) : Except FileFault Unit × Tree :=
  t.makeDirectoriesAt p.anchor p.names.reverse

end Tree

end CanvasLift
