import CanvasLift.Proofs.Command.Run
import CanvasLift.Proofs.Project.Confinement

namespace CanvasLift.Command.Run

variable {around : Surroundings} {host : Host} {s : Settings} {t : Tree} {line : Line}
  {given : Path} {project id : Text} {words : List Text}

/-- What is made of a tree for the project that is given by a path as it was written. -/
def ConfinedTo (host : Host) (given : Path) (t u : Tree) : Prop :=
  match host.expand? given with
  | some p => Confined (Path.resolve host.current p) t u
  | none => u = t

theorem confinedTo_refl (host : Host) (given : Path) (ht : t.WellFormed) :
    ConfinedTo host given t t := by
  rw [ConfinedTo]
  split
  · exact confined_refl rfl Path.up_not_mem_resolve ht
  · rfl

theorem confinedTo_of_changedBelow (ht : t.WellFormed) (hnone : Settings.NoneIn t)
    (hsettings : Settings.loadResolved host t given = .ok s) {u : Tree}
    (h : ∀ root, Path.up ∉ root → s = .defaults ⟨.root, root⟩ → Tree.ChangedBelow root t u) :
    ConfinedTo host given t u := by
  rw [ConfinedTo]
  split
  · next p hexpand =>
    apply confined_of_changedBelow ht rfl Path.up_not_mem_resolve
    apply h _ (Settings.up_not_mem_rootOf Path.up_not_mem_resolve)
    exact Settings.eq_defaults_of_loadResolved hnone hexpand hsettings
  · next hexpand =>
    rw [Settings.loadResolved, hexpand] at hsettings
    cases hsettings

section Requests

variable (ht : t.WellFormed) (hnone : Settings.NoneIn t)
  (hsettings : Settings.loadResolved host t given = .ok s)
include ht hnone hsettings

theorem confinedTo_generation (asked : Json) (records : List Log.Record) :
    ConfinedTo host given t ((Generation.run host s asked).run ⟨t, records, none⟩).2.tree := by
  apply confinedTo_of_changedBelow ht hnone hsettings
  intro root hup hs
  rw [hs]
  exact Generation.changedBelow_run host hup t asked records

theorem confinedTo_deletion (asked : Json) (records : List Log.Record) :
    ConfinedTo host given t ((Deletion.run s asked).run ⟨t, records, none⟩).2.tree := by
  apply confinedTo_of_changedBelow ht hnone hsettings
  intro root hup hs
  rw [hs]
  exact Deletion.changedBelow_run hup ht asked records

end Requests

theorem tree_generate (host : Host) (s : Settings) (id : Text) (t : Tree) :
    ((generate host s id).run (.ofTree t)).2.tree =
      ((Generation.run host s (.string (.ofText id))).run ⟨t, [], none⟩).2.tree := rfl

theorem tree_delete (s : Settings) (id : Text) (t : Tree) :
    ((delete s id).run (.ofTree t)).2.tree =
      ((Deletion.run s (.string (.ofText id))).run ⟨t, [], none⟩).2.tree := by
  rw [delete, StateT.run_bind, Workspace.ofTree]
  dsimp only [bind]
  split <;> rfl

theorem confinedTo_perform (ht : t.WellFormed) (hnone : Settings.NoneIn t)
    (hsettings : Settings.loadResolved around.host t given = .ok s) {action : Action}
    (haction : action = .delete id ∨ ∃ remote, action = .generate id remote) :
    ConfinedTo around.host given t ((perform around s action).run (.ofTree t)).2.tree := by
  rcases haction with rfl | ⟨remote, rfl⟩
  · rw [perform, tree_delete]
    exact confinedTo_deletion ht hnone hsettings _ []
  · rw [perform]
    cases remote with
    | true => exact confinedTo_refl around.host given ht
    | false =>
      rw [if_neg (by simp), tree_generate]
      exact confinedTo_generation ht hnone hsettings _ []

/-- A generation and a deletion change nothing but the `src` of the root of their project and missing
directories on the way to it, and the same holds of the command lines that ask for one. All of it
lies in the path that the project is given by exactly where that is a directory or the missing `src`
of one, or nothing changes. -/
theorem project_confined (around : Surroundings) (ht : t.WellFormed)
    (hnone : Settings.NoneIn t) (project : Text) :
    (∀ s, Settings.loadResolved around.host t (.ofText project) = .ok s →
      ∀ (asked : Json) (records : List Log.Record),
        let generated := (Generation.run around.host s asked).run ⟨t, records, none⟩
        let deleted := (Deletion.run s asked).run ⟨t, records, none⟩
        ConfinedTo around.host (.ofText project) t generated.2.tree ∧
          ConfinedTo around.host (.ofText project) t deleted.2.tree) ∧
    ∀ words line id, Line.ofWords words = .ok line → line.logFile = none →
      line.project = .word project →
      (line.action = .delete id ∨ ∃ remote, line.action = .generate id remote) →
        ConfinedTo around.host (.ofText project) t (ofWords around words t).2 := by
  constructor
  · intro s hsettings asked records
    exact ⟨confinedTo_generation ht hnone hsettings asked records,
      confinedTo_deletion ht hnone hsettings asked records⟩
  · intro words line id hwords hlog hproject haction
    cases hsettings : Settings.loadResolved around.host t (.ofText project) with
    | error fault =>
      rw [ofWords_of_fault hwords (.nothing hlog) hproject hsettings]
      exact confinedTo_refl around.host _ ht
    | ok s =>
      rw [ofWords_of_settings hwords hlog hproject hsettings]
      exact confinedTo_perform ht hnone hsettings haction

def oneComponent : Tree :=
  ((Tree.empty.set ["src"] .directory).set ["src", "components"] .directory).set
    ["src", "components", "c.tsx"] (.file [])

theorem project_confined_of_missing :
    let around : Surroundings :=
      ⟨.withYaml ⟨.root, []⟩ [] [], fun _ ↦ .answered [], 980, [], fun _ ↦ []⟩
    let t := oneComponent
    let s := Settings.defaults ⟨.root, []⟩
    let words : List Text := ["delete", "c", "--project", "p"]
    let line : Line := ⟨false, none, .word "p", .delete "c"⟩
    let deleted := (Deletion.run s (.string (.ofText "c"))).run ⟨t, [], none⟩
    (t.WellFormed ∧ Settings.NoneIn t ∧
        Settings.loadResolved around.host t (.ofText "p") = .ok s ∧
        Line.ofWords words = .ok line) ∧
      ConfinedTo around.host (.ofText "p") t deleted.2.tree ∧
      ConfinedTo around.host (.ofText "p") t (ofWords around words t).2 := by
  intro around t s words line deleted
  have ht : t.WellFormed := by decide
  have hnone : Settings.NoneIn t := by decide
  have hsettings : Settings.loadResolved around.host t (.ofText "p") = .ok s := rfl
  have hwords : Line.ofWords words = .ok line := rfl
  obtain ⟨hrequests, hlines⟩ := project_confined around ht hnone "p"
  refine ⟨⟨ht, hnone, hsettings, hwords⟩, (hrequests s hsettings _ []).2, ?_⟩
  exact hlines words line "c" hwords rfl rfl (.inl rfl)

/-- Where the path of the project is missing, the project beside it is the one that is changed. -/
theorem component_removed_beside_project :
    let around : Surroundings :=
      ⟨.withYaml ⟨.root, []⟩ [] [], fun _ ↦ .answered [], 980, [], fun _ ↦ []⟩
    let done := ofWords around ["delete", "c", "--project", "p"] oneComponent
    oneComponent.get? ["p"] = none ∧ done.1.ending = .ok 0 ∧
      oneComponent.get? ["src", "components", "c.tsx"] = some (.file []) ∧
      done.2.get? ["src", "components", "c.tsx"] = none ∧
      ¬ Tree.SameOutside ["p"] oneComponent done.2 := by
  intro around done
  have hold : oneComponent.get? ["src", "components", "c.tsx"] = some (.file []) := by
    decide +kernel
  have hnew : done.2.get? ["src", "components", "c.tsx"] = none := by
    decide +kernel
  refine ⟨by decide, by decide +kernel, hold, hnew, fun hsame ↦ ?_⟩
  have hkept := hsame ["src", "components", "c.tsx"] (by decide)
  rw [hnew, hold] at hkept
  cases hkept

end CanvasLift.Command.Run
