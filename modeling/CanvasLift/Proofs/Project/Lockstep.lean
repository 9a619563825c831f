import CanvasLift.Proofs.Files.Agreement
import CanvasLift.Proofs.Project.Workspace

/-!
Two runs of the same work side by side. A relation of their workspaces that each single step keeps is
kept by all the work that is made of such steps, and what the work comes to is then the same.
-/

namespace CanvasLift

/-- A relation that two runs keep with every step, as long as they look at and change none but the
used places. A directory is removed only where all that is below it is used. -/
structure Lockstep (used : Location → Prop) (R : Workspace → Workspace → Prop) : Prop where
  wellFormed {w w' : Workspace} : R w w' → w.tree.WellFormed
  agreeOn {w w' : Workspace} : R w w' → Tree.AgreeOn used w.tree w'.tree
  noted {w w' : Workspace} (r : Log.Record) : R w w' → R (w.noted r) (w'.noted r)
  set {w w' : Workspace} {l : Location} {name : Name} (e : Entry) : R w w' → used l →
    used (l ++ [name]) → name ≠ Path.up → w.tree.get? l = some .directory →
    w.tree.get? (l ++ [name]) ≠ some .directory →
      R (w.withTree (w.tree.set (l ++ [name]) e)) (w'.withTree (w'.tree.set (l ++ [name]) e))
  remove {w w' : Workspace} {l : Location} : R w w' → used l →
    (w.tree.get? l = some .directory → ∀ m, l <+: m → used m) →
      R (w.withTree (w.tree.remove l)) (w'.withTree (w'.tree.remove l))

/-- Two changes that both fail, with the same fault, or both leave related workspaces. -/
inductive Alike {ε : Type} (R : Workspace → Workspace → Prop) (w w' : Workspace) :
    Except ε Tree → Except ε Tree → Prop
  | ok {t t' : Tree} (h : R (w.withTree t) (w'.withTree t')) : Alike R w w' (.ok t) (.ok t')
  | error (fault : ε) : Alike R w w' (.error fault) (.error fault)

variable {α β ε ε' : Type} {used : Location → Prop} {R : Workspace → Workspace → Prop}
  {w w' : Workspace} {p : Path} {l : Location}

theorem Alike.mapError {r r' : Except ε Tree} (h : Alike R w w' r r') (f : ε → ε') :
    Alike R w w' (r.mapError f) (r'.mapError f) := by
  cases h with
  | ok h => exact .ok h
  | error fault => exact .error (f fault)

namespace Lockstep

variable (h : Lockstep used R)
include h

theorem setAt (hR : R w w') (hp : p.Within used) (hl : w.tree.locate p = .ok l)
    (hfree : w.tree.get? l ≠ some .directory) (e : Entry) :
    R (w.withTree (w.tree.set l e)) (w'.withTree (w'.tree.set l e)) := by
  have hused : used l := by
    rw [Tree.eq_place_of_locate hl]
    exact hp.place
  obtain ⟨d, name, rfl, hname, hdir, hway⟩ := (h.wellFormed hR).exists_of_locate hl hfree
  exact h.set e hR (hp d hway) hused hname hdir hfree

theorem write (hR : R w w') (hp : p.Within used) (content : Bytes) :
    Alike R w w' (w.tree.write p content) (w'.tree.write p content) := by
  rw [Tree.write, Tree.write, (h.agreeOn hR).locate_eq hp]
  cases hl : w.tree.locate p with
  | error fault => exact .error fault
  | ok l =>
    simp only [bind, Except.bind, (h.agreeOn hR).get?_of_locate hp hl]
    split
    · exact .error _
    · next hfree => exact .ok (h.setAt hR hp hl hfree _)

theorem makeDirectory (hR : R w w') (hp : p.Within used) :
    Alike R w w' (w.tree.makeDirectory p) (w'.tree.makeDirectory p) := by
  rw [Tree.makeDirectory, Tree.makeDirectory, (h.agreeOn hR).locate_eq hp]
  cases hl : w.tree.locate p with
  | error fault => exact .error fault
  | ok l =>
    simp only [bind, Except.bind, (h.agreeOn hR).get?_of_locate hp hl]
    split
    · exact .error _
    · next hfree => exact .ok (h.setAt hR hp hl (by simp [hfree]) _)

theorem orPresent_eq (hR : R w w') (hp : p.Within used) (fault : FileFault) :
    w'.tree.orPresent p fault = w.tree.orPresent p fault := by
  rw [Tree.orPresent, Tree.orPresent, (h.agreeOn hR).isDirectory_eq hp]

theorem makeDirectoriesAt {anchor : Anchor} {names : List Name} (hR : R w w')
    (hp : Path.Within used ⟨anchor, names.reverse⟩) :
    (w'.tree.makeDirectoriesAt anchor names).1 = (w.tree.makeDirectoriesAt anchor names).1 ∧
      R (w.withTree (w.tree.makeDirectoriesAt anchor names).2)
        (w'.withTree (w'.tree.makeDirectoriesAt anchor names).2) := by
  induction names with
  | nil => exact ⟨h.orPresent_eq hR hp _, hR⟩
  | cons name above ih =>
    have habove : Path.Within used ⟨anchor, above.reverse⟩ := hp.of_prefix (by simp) anchor
    obtain ⟨hresult, hmade⟩ := ih habove
    have hfirst := h.makeDirectory hR hp
    have hpresent (fault : FileFault) := h.orPresent_eq hR hp fault
    rw [Tree.makeDirectoriesAt, Tree.makeDirectoriesAt]
    generalize w.tree.makeDirectory ⟨anchor, (name :: above).reverse⟩ = r at hfirst ⊢
    generalize w'.tree.makeDirectory ⟨anchor, (name :: above).reverse⟩ = r' at hfirst ⊢
    cases hfirst with
    | ok hR => exact ⟨rfl, hR⟩
    | error fault =>
      rcases fault with ⟨_ | _ | _ | _ | _, q⟩ | _ | _
      · generalize w.tree.makeDirectoriesAt anchor above = m at hresult hmade ⊢
        generalize w'.tree.makeDirectoriesAt anchor above = m' at hresult hmade ⊢
        obtain ⟨result, t⟩ := m
        obtain ⟨result', t'⟩ := m'
        obtain rfl : result' = result := hresult
        cases result' with
        | error fault => exact ⟨rfl, hmade⟩
        | ok done =>
          have hlast := h.makeDirectory hmade hp
          have hpresent (fault : FileFault) := h.orPresent_eq hmade hp fault
          dsimp only [Workspace.withTree] at hlast hpresent ⊢
          generalize t.makeDirectory ⟨anchor, (name :: above).reverse⟩ = r at hlast ⊢
          generalize t'.makeDirectory ⟨anchor, (name :: above).reverse⟩ = r' at hlast ⊢
          cases hlast with
          | ok hR => exact ⟨rfl, hR⟩
          | error fault =>
            rcases fault with ⟨_ | _ | _ | _ | _, q⟩ | _ | _
            · exact ⟨rfl, hmade⟩
            all_goals exact ⟨hpresent _, hmade⟩
      all_goals first | exact ⟨rfl, hR⟩ | exact ⟨hpresent _, hR⟩

theorem makeDirectories (hR : R w w') (hp : p.Within used) :
    (w'.tree.makeDirectories p).1 = (w.tree.makeDirectories p).1 ∧
      R (w.withTree (w.tree.makeDirectories p).2) (w'.withTree (w'.tree.makeDirectories p).2) := by
  apply h.makeDirectoriesAt hR
  rwa [List.reverse_reverse]

end Lockstep

def Work.Together (R : Workspace → Workspace → Prop) (f f' : Work α) (w w' : Workspace) : Prop :=
  (f'.run w').1 = (f.run w).1 ∧ R (f.run w).2 (f'.run w').2

def Attempt.Together (R : Workspace → Workspace → Prop) (f f' : Attempt ε α) (w w' : Workspace) :
    Prop :=
  Work.Together R f.run f'.run w w'

namespace Work

theorem together_pure (a : α) (hR : R w w') : Together R (pure a) (pure a) w w' := ⟨rfl, hR⟩

theorem Together.bind {f f' : Work α} {g g' : α → Work β} (h : Together R f f' w w')
    (hg : ∀ v v', R v v' → Together R (g (f.run w).1) (g' (f.run w).1) v v') :
    Together R (f >>= g) (f' >>= g') w w' := by
  obtain ⟨hvalue, hR⟩ := h
  rw [Together, StateT.run_bind, StateT.run_bind]
  dsimp only [Bind.bind]
  rw [hvalue]
  exact hg _ _ hR

theorem Together.get_bind {g g' : Workspace → Work α} (h : Together R (g w) (g' w') w w') :
    Together R (get >>= g) (get >>= g') w w' := h

theorem together_note (h : Lockstep used R) (level : Log.Level) (channel : Text) (message : WideText)
    (hR : R w w') : Together R (note level channel message) (note level channel message) w w' :=
  ⟨rfl, h.noted _ hR⟩

end Work

namespace Attempt

theorem together_pure (a : α) (hR : R w w') :
    Together R (pure a : Attempt ε α) (pure a) w w' := ⟨rfl, hR⟩

theorem together_throw (fault : ε) (hR : R w w') :
    Together R (throw fault : Attempt ε α) (throw fault) w w' := ⟨rfl, hR⟩

theorem Together.bind {f f' : Attempt ε α} {g g' : α → Attempt ε β} (h : Together R f f' w w')
    (hg : ∀ a v v', (f.run.run w).1 = .ok a → R v v' → Together R (g a) (g' a) v v') :
    Together R (f >>= g) (f' >>= g') w w' := by
  rw [Together, ExceptT.run_bind, ExceptT.run_bind]
  refine Work.Together.bind h fun v v' hR ↦ ?_
  cases hvalue : (f.run.run w).1 with
  | ok a => exact hg a v v' hvalue hR
  | error fault => exact Work.together_pure _ hR

theorem Together.get_bind {g g' : Workspace → Attempt ε α} (h : Together R (g w) (g' w') w w') :
    Together R (get >>= g) (get >>= g') w w' := h

theorem together_lift {f f' : Work α} (h : Work.Together R f f' w w') :
    Together R (liftM f : Attempt ε α) (liftM f') w w' :=
  ⟨congrArg Except.ok h.1, h.2⟩

theorem together_note (h : Lockstep used R) (level : Log.Level) (channel : Text) (message : WideText)
    (hR : R w w') :
    Together R (liftM (note level channel message) : Attempt ε Unit)
      (liftM (note level channel message)) w w' :=
  together_lift (Work.together_note h level channel message hR)

theorem together_withTree {t t' : Tree} (hR : R (w.withTree t) (w'.withTree t')) :
    Together R (modify (Workspace.withTree · t) : Attempt ε Unit)
      (modify (Workspace.withTree · t')) w w' := ⟨rfl, hR⟩

theorem Together.look_bind {f : Tree → Except ε α} {g g' : α → Attempt ε β} (hR : R w w')
    (hf : f w'.tree = f w.tree) (hg : ∀ a, f w.tree = .ok a → Together R (g a) (g' a) w w') :
    Together R (look f >>= g) (look f >>= g') w w' := by
  rw [Together, Work.Together, run_bind, run_bind, run_look, run_look, hf]
  cases hvalue : f w.tree with
  | ok a => exact hg a hvalue
  | error fault => exact ⟨rfl, hR⟩

theorem together_change {f : Tree → Except ε Tree} (hR : R w w')
    (hf : Alike R w w' (f w.tree) (f w'.tree)) : Together R (change f) (change f) w w' := by
  apply Together.get_bind
  generalize f w.tree = r at hf ⊢
  generalize f w'.tree = r' at hf ⊢
  cases hf with
  | ok h => exact together_withTree h
  | error fault => exact together_throw fault hR

end Attempt

end CanvasLift
