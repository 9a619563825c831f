import CanvasLift.Project.Settings
import CanvasLift.Proofs.Files.Path
import CanvasLift.Proofs.Files.WellFormed

namespace CanvasLift

theorem Tree.isDirectory_root (t : Tree) : t.isDirectory ⟨.root, []⟩ = .ok true := rfl

namespace Settings

variable {host : Host} {t : Tree} {p q : Path} {s : Settings}

def NoneIn (t : Tree) : Prop := ∀ e ∈ t.entries, e.1.getLast? ≠ some (WideText.ofText fileName)

instance (t : Tree) : Decidable (NoneIn t) :=
  inferInstanceAs (Decidable (∀ e ∈ t.entries, _))

theorem NoneIn.get? (h : NoneIn t) (l : Location) :
    t.get? (l ++ [WideText.ofText fileName]) = none := by
  cases he : t.get? (l ++ [WideText.ofText fileName]) with
  | none => rfl
  | some e => exact absurd (by simp) (h _ ((Tree.mem_entries_iff (by simp)).2 he))

def sourceName : Name := "src"

def componentsName : Name := "components"

theorem sourceDirectory_defaults (root : Path) :
    (defaults root).sourceDirectory = ⟨root.anchor, root.names ++ [sourceName]⟩ := by
  rw [defaults, show Path.ofText "src" = ⟨.here, [sourceName]⟩ from by decide]
  rfl

theorem componentsDirectory_defaults (root : Path) :
    (defaults root).componentsDirectory =
      ⟨root.anchor, root.names ++ [sourceName] ++ [componentsName]⟩ := by
  rw [defaults, List.append_assoc,
    show Path.ofText "src/components" = ⟨.here, [sourceName, componentsName]⟩ from by decide]
  rfl

/-- Where the root of a project is that is given by a path without `..`. -/
def rootOf (t : Tree) (p : Path) : Location :=
  if t.isDirectory p = .ok true then p.names else p.names.dropLast

theorem rootOf_of_isDirectory (h : t.isDirectory p = .ok true) : rootOf t p = p.names := if_pos h

theorem rootOf_of_not_isDirectory (h : t.isDirectory p ≠ .ok true) :
    rootOf t p = p.names.dropLast := if_neg h

theorem expand?_of_isAbsolute (host : Host) (h : p.isAbsolute = true) : host.expand? p = some p := by
  obtain ⟨anchor, names⟩ := p
  cases anchor with
  | here => cases h
  | root => rfl
  | doubleRoot => rfl

theorem up_not_mem_rootOf (hup : Path.up ∉ p.names) : Path.up ∉ rootOf t p := by
  rw [rootOf]
  split
  · exact hup
  · exact fun h ↦ hup (List.dropLast_subset _ h)

theorem eq_of_resolve {file : Path} {l : Location} (hl : Path.up ∉ l)
    (h : liftFile (host.resolve ⟨.root, l ++ [WideText.ofText fileName]⟩) = .ok file) :
    file = ⟨.root, l ++ [WideText.ofText fileName]⟩ := by
  rw [Host.resolve] at h
  split at h
  · cases h
  · rw [Path.resolve_of_up_not_mem (List.not_mem_append hl (by decide))] at h
    exact (Except.ok.inj h).symm

theorem eq_concat_of_name {names : List Name}
    (h : Path.name ⟨.root, names⟩ = WideText.ofText fileName) :
    names = names.dropLast ++ [WideText.ofText fileName] := by
  cases names using List.reverseRecOn with
  | nil => cases h
  | append_singleton above last =>
    obtain rfl : last = WideText.ofText fileName := by simpa [Path.name] using h
    rw [List.dropLast_concat]

theorem eq_of_locate {file : Path} (hroot : p.anchor = .root) (hup : Path.up ∉ p.names)
    (h : locate host t p = .ok file) : file = ⟨.root, rootOf t p ++ [WideText.ofText fileName]⟩ := by
  obtain ⟨anchor, names⟩ := p
  obtain rfl : anchor = .root := hroot
  rw [locate, expand?_of_isAbsolute host rfl] at h
  dsimp only at h
  rw [Host.absolute, Path.join_of_isAbsolute rfl] at h
  cases hdir : t.isDirectory ⟨.root, names⟩ with
  | error fault =>
    rw [hdir] at h
    cases h
  | ok b =>
    rw [hdir] at h
    cases b with
    | true =>
      rw [rootOf_of_isDirectory hdir]
      exact eq_of_resolve hup h
    | false =>
      have hroot : rootOf t ⟨.root, names⟩ = names.dropLast := by
        rw [rootOf, hdir]
        rfl
      rw [hroot]
      apply eq_of_resolve fun hmem ↦ hup (List.dropLast_subset _ hmem)
      simp only [bind, Except.bind, pure, Except.pure, Bool.false_eq_true, if_false] at h
      split at h
      · next hname =>
        -- The path names the settings file itself: its directory and its name are put back together.
        rw [← eq_concat_of_name hname]
        exact h
      · exact h

theorem eq_defaults_of_load (hnone : NoneIn t) (hroot : p.anchor = .root)
    (hup : Path.up ∉ p.names) (h : load host t p = .ok s) : s = defaults ⟨.root, rootOf t p⟩ := by
  rw [load] at h
  cases hfile : locate host t p with
  | error fault =>
    rw [hfile] at h
    cases h
  | ok file =>
    obtain rfl := eq_of_locate hroot hup hfile
    have hparent :
        Path.parent ⟨.root, rootOf t p ++ [WideText.ofText fileName]⟩ = ⟨.root, rootOf t p⟩ := by
      rw [Path.parent, List.dropLast_concat]
    have hstat : ∀ e, t.stat ⟨.root, rootOf t p ++ [WideText.ofText fileName]⟩ ≠ .ok (some e) := by
      intro e he
      rw [Tree.stat] at he
      split at he
      · next l hl =>
        have hupFile := List.not_mem_append (up_not_mem_rootOf (t := t) hup)
          (show Path.up ∉ [WideText.ofText fileName] by decide)
        obtain rfl := Tree.eq_append_of_follow hupFile (Tree.follow_of_locate hl)
        rw [List.nil_append, hnone.get?] at he
        cases he
      · cases he
      · cases he
    rw [hfile] at h
    cases hfound : t.stat ⟨.root, rootOf t p ++ [WideText.ofText fileName]⟩ with
    | error fault =>
      simp only [bind, Except.bind, hfound, liftFile] at h
      cases h
    | ok e =>
      cases e with
      | some e => exact absurd hfound (hstat e)
      | none =>
        simp only [bind, Except.bind, hfound, liftFile, hparent] at h
        exact (Except.ok.inj h).symm

theorem eq_defaults_of_loadResolved (hnone : NoneIn t) (hexpand : host.expand? p = some q)
    (h : loadResolved host t p = .ok s) :
    s = defaults ⟨.root, rootOf t (Path.resolve host.current q)⟩ := by
  rw [loadResolved, hexpand] at h
  dsimp only at h
  rw [Host.resolve] at h
  split at h
  · cases h
  · exact eq_defaults_of_load hnone rfl Path.up_not_mem_resolve h

end Settings

end CanvasLift
