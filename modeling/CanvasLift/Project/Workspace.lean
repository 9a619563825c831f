import CanvasLift.Files.Access
import CanvasLift.Project.Log

/-!
What a run works on: the file tree, the records so far, and the log files, if there are any, that
each record is written to at once.
-/

namespace CanvasLift

structure LogFiles where
  logger : Log.Logger
  time : Text

/-- A record that cannot be encoded is not written. -/
def LogFiles.write (f : LogFiles) (r : Log.Record) (t : Tree) : Tree :=
  match (r.fileLine f.time).text? with
  | some line => (f.logger.places r).foldl (fun t l ↦ t.append l (Utf8.encode line)) t
  | none => t

structure Workspace where
  tree : Tree
  records : List Log.Record
  logFiles : Option LogFiles

abbrev Work := StateM Workspace

/-- Work that may end in a fault; what was done before it stays done. -/
abbrev Attempt (ε : Type) := ExceptT ε Work

namespace Workspace

def ofTree (t : Tree) : Workspace := ⟨t, [], none⟩

def started (t : Tree) (g : Log.Logger) (time : Text) : Workspace :=
  ⟨t, [], if g.writesFiles then some ⟨g, time⟩ else none⟩

def noted (r : Log.Record) (w : Workspace) : Workspace where
  tree := match w.logFiles with
    | some f => f.write r w.tree
    | none => w.tree
  records := w.records ++ [r]
  logFiles := w.logFiles

def withTree (w : Workspace) (t : Tree) : Workspace := { w with tree := t }

end Workspace

def note (level : Log.Level) (channel : Text) (message : WideText) : Work Unit :=
  modify (Workspace.noted ⟨level, channel, message⟩)

def look {ε α : Type} (f : Tree → Except ε α) : Attempt ε α := do
  match f (← get).tree with
  | .ok a => return a
  | .error fault => throw fault

def change {ε : Type} (f : Tree → Except ε Tree) : Attempt ε Unit := do
  match f (← get).tree with
  | .ok t => modify (Workspace.withTree · t)
  | .error fault => throw fault

end CanvasLift
