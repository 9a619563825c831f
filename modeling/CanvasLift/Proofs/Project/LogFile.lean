import CanvasLift.Proofs.Project.Lockstep

/-!
A run with a log file beside the same run without one. The main statement is that they go in lockstep
as long as nothing at the log file, or at the directories that were made for it, is used.
-/

namespace CanvasLift

variable {t : Tree} {w w' : Workspace} {aside : List Location} {l : Location} {old : Bytes}

theorem LogFiles.wellFormed_write (f : LogFiles) (r : Log.Record) (ht : t.WellFormed) :
    (f.write r t).WellFormed := by
  rw [write]
  split
  · generalize f.logger.places r = places
    induction places generalizing t with
    | nil => exact ht
    | cons l places ih => exact ih (ht.sameKinds (t.sameKinds_append l _))
  · exact ht

theorem Workspace.wellFormed_noted (r : Log.Record) (hw : w.tree.WellFormed) :
    (w.noted r).tree.WellFormed := by
  rw [noted]
  cases w.logFiles with
  | none => exact hw
  | some f => exact f.wellFormed_write r hw

/-- A run that writes the log file at `l` stands beside one that writes none: they have the same on
record, their trees differ at most in the places that are `aside`, and what the log file held at first
is still at its start. -/
structure Beside (aside : List Location) (l : Location) (old : Bytes) (w w' : Workspace) : Prop where
  wellFormed : w.tree.WellFormed
  wellFormed_logged : w'.tree.WellFormed
  agreeOn : Tree.AgreeOn (· ∉ aside) w.tree w'.tree
  kept : ∃ more, w'.tree.get? l = some (.file (old ++ more))
  records : w'.records = w.records
  silent : w.logFiles = none
  logged : ∃ f, w'.logFiles = some f ∧ ∀ r, f.logger.places r = [l]

namespace Beside

variable (h : Beside aside l old w w')
include h

theorem noted (hl : l ∈ aside) (r : Log.Record) : Beside aside l old (w.noted r) (w'.noted r) := by
  obtain ⟨f, hf, hplaces⟩ := h.logged
  have hplain : (w.noted r).tree = w.tree := by rw [Workspace.noted, h.silent]
  obtain ⟨more, hkept⟩ := h.kept
  have hlogged : (∀ m, m ≠ l → (w'.noted r).tree.get? m = w'.tree.get? m) ∧
      ∃ more, (w'.noted r).tree.get? l = some (.file (old ++ more)) := by
    rw [Workspace.noted, hf]
    dsimp only
    rw [LogFiles.write, hplaces]
    split
    · next line _ =>
      refine ⟨fun m hm ↦ Tree.get?_append_of_ne hm _, more ++ Utf8.encode line, ?_⟩
      rw [List.foldl_cons, List.foldl_nil, Tree.get?_append_self hkept, List.append_assoc]
    · exact ⟨fun _ _ ↦ rfl, more, hkept⟩
  refine ⟨Workspace.wellFormed_noted r h.wellFormed, Workspace.wellFormed_noted r h.wellFormed_logged,
    ?_, hlogged.2, ?_, h.silent, f, hf, hplaces⟩
  · intro m hm
    rw [hplain, hlogged.1, h.agreeOn m hm]
    rintro rfl
    exact hm hl
  · rw [Workspace.noted, Workspace.noted, h.records]

theorem set (hl : l ∈ aside) {d : Location} {name : Name} (e : Entry) (hd : d ∉ aside)
    (hplace : d ++ [name] ∉ aside) (hname : name ≠ Path.up) (hdir : w.tree.get? d = some .directory)
    (hfree : w.tree.get? (d ++ [name]) ≠ some .directory) :
    Beside aside l old (w.withTree (w.tree.set (d ++ [name]) e))
      (w'.withTree (w'.tree.set (d ++ [name]) e)) := by
  have hdir' : w'.tree.get? d = some .directory := by rw [h.agreeOn d hd, hdir]
  have hfree' : w'.tree.get? (d ++ [name]) ≠ some .directory := by rwa [h.agreeOn _ hplace]
  refine ⟨h.wellFormed.set hdir hname (absurd · hfree),
    h.wellFormed_logged.set hdir' hname (absurd · hfree'), ?_, ?_, h.records, h.silent, h.logged⟩
  · intro m hm
    dsimp only [Workspace.withTree]
    by_cases heq : m = d ++ [name]
    · have hne : m ≠ [] := by simp [heq]
      rw [← heq, Tree.get?_set_self _ _ hne, Tree.get?_set_self _ _ hne]
    · rw [Tree.get?_set_of_ne _ _ heq, Tree.get?_set_of_ne _ _ heq, h.agreeOn m hm]
  · obtain ⟨more, hkept⟩ := h.kept
    refine ⟨more, ?_⟩
    have hne : l ≠ d ++ [name] := fun heq ↦ hplace (heq ▸ hl)
    rw [Workspace.withTree, Tree.get?_set_of_ne _ _ hne, hkept]

theorem remove (hl : l ∈ aside) {m : Location} (hm : m ∉ aside)
    (hbelow : w.tree.get? m = some .directory → ∀ k, m <+: k → k ∉ aside) :
    Beside aside l old (w.withTree (w.tree.remove m)) (w'.withTree (w'.tree.remove m)) := by
  refine ⟨h.wellFormed.remove m, h.wellFormed_logged.remove m, ?_, ?_, h.records, h.silent, h.logged⟩
  · intro k hk
    by_cases hne : k = []
    · rw [hne]
      rfl
    · dsimp only [Workspace.withTree]
      rw [Tree.get?_remove hne, Tree.get?_remove hne, h.agreeOn k hk]
  · obtain ⟨more, hkept⟩ := h.kept
    have hnil : l ≠ [] := by
      rintro rfl
      cases hkept
    have hout : ¬ m <+: l := by
      intro hpre
      by_cases hdir : w.tree.get? m = some .directory
      · exact hbelow hdir l hpre hl
      · rw [← h.agreeOn m hm] at hdir
        have hnone := h.wellFormed_logged.get?_of_prefix hdir hpre fun heq ↦ hm (heq ▸ hl)
        rw [hkept] at hnone
        cases hnone
    refine ⟨more, ?_⟩
    rw [Workspace.withTree, Tree.get?_remove hnil, if_neg hout, hkept]

end Beside

theorem lockstep_self :
    Lockstep (fun _ ↦ True) fun w w' ↦ w' = w ∧ w.tree.WellFormed where
  wellFormed h := h.2
  agreeOn := by
    rintro w _ ⟨rfl, -⟩ l -
    rfl
  noted := by
    rintro w _ r ⟨rfl, hw⟩
    exact ⟨rfl, Workspace.wellFormed_noted r hw⟩
  set := by
    rintro w _ l name e ⟨rfl, hw⟩ - - hname hdir hfree
    exact ⟨rfl, hw.set hdir hname (absurd · hfree)⟩
  remove := by
    rintro w _ l ⟨rfl, hw⟩ - -
    exact ⟨rfl, hw.remove l⟩

theorem Tree.WellFormed.makeDirectories (ht : t.WellFormed) (p : Path) :
    (t.makeDirectories p).2.WellFormed :=
  (lockstep_self.makeDirectories (w := .ofTree t) ⟨rfl, ht⟩ fun _ _ ↦ trivial).2.2

end CanvasLift
