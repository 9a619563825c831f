import CanvasLift.Project.Workspace

/-!
Work as a function of the tree. Records are only ever added, so while no log file is written the
value of work and the tree that it leaves depend on nothing but the tree at its start.
-/

namespace CanvasLift

variable {α β ε : Type} {t u v : Tree}

/-- Work that starts from the tree `t` gives `a` and leaves the tree `u`, whatever is on record. -/
def Work.Yields (f : Work α) (t : Tree) (a : α) (u : Tree) : Prop :=
  ∀ records, ∃ more, f ⟨t, records, none⟩ = (a, ⟨u, records ++ more, none⟩)

namespace Work

theorem Yields.value {f : Work α} {a : α} (h : Yields f t a u) (records : List Log.Record) :
    (f.run ⟨t, records, none⟩).1 = a := by
  obtain ⟨more, hf⟩ := h records
  rw [StateT.run, hf]

theorem Yields.tree {f : Work α} {a : α} (h : Yields f t a u) (records : List Log.Record) :
    (f.run ⟨t, records, none⟩).2.tree = u := by
  obtain ⟨more, hf⟩ := h records
  rw [StateT.run, hf]

theorem yields_pure (a : α) (t : Tree) : Yields (pure a) t a t :=
  fun _ ↦ ⟨[], by rw [List.append_nil]; rfl⟩

theorem Yields.bind {f : Work α} {g : α → Work β} {a : α} {b : β} (h : Yields f t a u)
    (h' : Yields (g a) u b v) : Yields (f >>= g) t b v := by
  intro records
  obtain ⟨more, hf⟩ := h records
  obtain ⟨more', hg⟩ := h' (records ++ more)
  refine ⟨more ++ more', ?_⟩
  rw [← List.append_assoc]
  exact (congrArg (fun p ↦ g p.1 p.2) hf).trans hg

theorem Yields.get_bind {g : Workspace → Work β} {b : β}
    (h : ∀ w : Workspace, w.tree = t → Yields (g w) t b u) : Yields (get >>= g) t b u :=
  fun records ↦ h ⟨t, records, none⟩ rfl records

theorem yields_withTree (t u : Tree) : Yields (modify (Workspace.withTree · u)) t () u :=
  fun _ ↦ ⟨[], by rw [List.append_nil]; rfl⟩

theorem yields_note (level : Log.Level) (channel : Text) (message : WideText) (t : Tree) :
    Yields (note level channel message) t () t :=
  fun _ ↦ ⟨[⟨level, channel, message⟩], rfl⟩

end Work

open Work

def Attempt.Yields (f : Attempt ε α) (t : Tree) (r : Except ε α) (u : Tree) : Prop :=
  Work.Yields (ExceptT.run f) t r u

namespace Attempt

theorem run_bind (f : Attempt ε α) (g : α → Attempt ε β) (w : Workspace) :
    (f >>= g).run.run w = match f.run.run w with
      | (.ok a, w') => (g a).run.run w'
      | (.error fault, w') => (.error fault, w') := by
  rw [ExceptT.run_bind, StateT.run_bind]
  obtain ⟨r, w'⟩ := f.run.run w
  cases r <;> rfl

theorem exists_of_bind_eq_ok {f : Attempt ε α} {g : α → Attempt ε β} {w : Workspace} {b : β}
    (h : ((f >>= g).run.run w).1 = .ok b) :
    ∃ a w', f.run.run w = (.ok a, w') ∧ ((g a).run.run w').1 = .ok b := by
  rw [run_bind] at h
  generalize f.run.run w = done at h ⊢
  obtain ⟨r, w'⟩ := done
  cases r with
  | error fault => cases h
  | ok a => exact ⟨a, w', rfl, h⟩

theorem run_get (w : Workspace) : (get : Attempt ε Workspace).run.run w = (.ok w, w) := rfl

theorem run_modify (f : Workspace → Workspace) (w : Workspace) :
    (modify f : Attempt ε Unit).run.run w = (.ok (), f w) := rfl

theorem run_lift (f : Work α) (w : Workspace) :
    (liftM f : Attempt ε α).run.run w = (.ok (f.run w).1, (f.run w).2) := rfl

theorem run_look (f : Tree → Except ε α) (w : Workspace) :
    (look f).run.run w = (f w.tree, w) := by
  rw [look, run_bind, run_get]
  dsimp only
  cases f w.tree <;> rfl

theorem yields_pure (a : α) (t : Tree) : Yields (pure a : Attempt ε α) t (.ok a) t :=
  Work.yields_pure _ t

theorem yields_throw (fault : ε) (t : Tree) :
    Yields (throw fault : Attempt ε α) t (.error fault) t :=
  Work.yields_pure _ t

theorem Yields.bind {f : Attempt ε α} {g : α → Attempt ε β} {a : α} {r : Except ε β}
    (h : Yields f t (.ok a) u) (h' : Yields (g a) u r v) : Yields (f >>= g) t r v := by
  rw [Yields, ExceptT.run_bind]
  exact Work.Yields.bind h h'

theorem Yields.bind_error {f : Attempt ε α} {g : α → Attempt ε β} {fault : ε}
    (h : Yields f t (.error fault) u) : Yields (f >>= g) t (.error fault) u := by
  rw [Yields, ExceptT.run_bind]
  exact Work.Yields.bind h (Work.yields_pure _ u)

theorem yields_lift {f : Work α} {a : α} (h : Work.Yields f t a u) :
    Yields (liftM f : Attempt ε α) t (.ok a) u := by
  intro records
  obtain ⟨more, hf⟩ := h records
  exact ⟨more, congrArg (fun p : α × Workspace ↦ ((.ok p.1 : Except ε α), p.2)) hf⟩

theorem Yields.get_bind {g : Workspace → Attempt ε β} {r : Except ε β}
    (h : ∀ w : Workspace, w.tree = t → Yields (g w) t r u) : Yields (get >>= g) t r u :=
  fun records ↦ h ⟨t, records, none⟩ rfl records

theorem yields_note (level : Log.Level) (channel : Text) (message : WideText) (t : Tree) :
    Yields (liftM (note level channel message) : Attempt ε Unit) t (.ok ()) t :=
  yields_lift (Work.yields_note level channel message t)

theorem yields_withTree (t u : Tree) :
    Yields (modify (Workspace.withTree · u) : Attempt ε Unit) t (.ok ()) u :=
  yields_lift (Work.yields_withTree t u)

theorem yields_look (f : Tree → Except ε α) (t : Tree) : Yields (look f) t (f t) t := by
  apply Yields.get_bind
  intro w hw
  rw [hw]
  cases f t with
  | ok a => exact yields_pure a t
  | error fault => exact yields_throw fault t

theorem yields_change_ok {f : Tree → Except ε Tree} (h : f t = .ok u) :
    Yields (change f) t (.ok ()) u := by
  apply Yields.get_bind
  intro w hw
  rw [hw, h]
  exact yields_withTree t u

theorem yields_change_error {f : Tree → Except ε Tree} {fault : ε} (h : f t = .error fault) :
    Yields (change f) t (.error fault) t := by
  apply Yields.get_bind
  intro w hw
  rw [hw, h]
  exact yields_throw fault t

end Attempt

end CanvasLift
