import CanvasLift.Project.Log

namespace CanvasLift.Log.Logger

variable {g : Logger} {least : Level} {place : Location} {r : Record}

theorem foldl_without (least : Level) (gone kept : List Handler) :
    gone.foldl without ⟨least, gone ++ kept⟩ = ⟨least, kept⟩ := by
  induction gone with
  | nil => rfl
  | cons h gone ih =>
    rw [List.foldl_cons, without, List.cons_append, List.erase_cons_head]
    exact ih

theorem cleared_eq (g : Logger) : g.cleared = ⟨g.least, []⟩ := by
  have h := foldl_without g.least g.handlers []
  rwa [List.append_nil] at h

theorem configured_none (g : Logger) (least : Level) :
    g.configured least none = ⟨least, [⟨.console, none⟩]⟩ := by
  rw [configured, cleared_eq]
  rfl

theorem configured_some (g : Logger) (least : Level) (place : Location) :
    g.configured least (some place) =
      ⟨.debug, [⟨.console, some least⟩, ⟨.file place, some .debug⟩]⟩ := by
  rw [configured, cleared_eq]
  rfl

theorem configured_eq (g g' : Logger) (least : Level) (file : Option Location) :
    g.configured least file = g'.configured least file := by
  cases file with
  | none => rw [configured_none, configured_none]
  | some place => rw [configured_some, configured_some]

theorem writesFiles_configured (g : Logger) (least : Level) (file : Option Location) :
    (g.configured least file).writesFiles = file.isSome := by
  cases file with
  | none =>
    rw [configured_none]
    rfl
  | some place =>
    rw [configured_some]
    rfl

end CanvasLift.Log.Logger
