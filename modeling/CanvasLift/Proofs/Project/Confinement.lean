import CanvasLift.Proofs.Project.Frame
import CanvasLift.Proofs.Project.Generation
import CanvasLift.Proofs.Project.Root

/-!
How far a project without settings reaches. A generation and a deletion change nothing but the `src`
of its root and what is missing on the way there; the main statement says when that lies in the
directory that the project was given by.
-/

namespace CanvasLift

open Settings (sourceName componentsName componentsDirectory_defaults sourceDirectory_defaults)

variable {host : Host} {s : Settings} {given : Json} {id : Text} {t u v w : Tree} {p : Path}
  {l m root : Location} {records : List Log.Record}

namespace Tree

/-- `u` is `t` but for what is at `l` and below it. -/
def SameOutside (l : Location) (t u : Tree) : Prop := ∀ m, ¬ l <+: m → u.get? m = t.get? m

theorem not_concat_prefix (l : Location) (name : Name) : ¬ l ++ [name] <+: l := by
  intro h
  have hlen := h.length_le
  rw [List.length_append, List.length_singleton] at hlen
  omega

/-- What differs between `t` and `u` lies in the `src` of a directory, or is a directory that was
missing on the way to it. -/
def ChangedBelow (root : Location) (t u : Tree) : Prop :=
  ∀ m, u.get? m ≠ t.get? m →
    (root ++ [sourceName] <+: m ∧ u.get? root = some .directory) ∨
      (m <+: root ∧ t.get? m = none ∧ u.get? m = some .directory)

theorem isDirectory_above (ht : t.WellFormed) (hl : t.get? l = some .directory)
    (hpre : m <+: l) : t.get? m = some .directory := by
  by_contra hm
  by_cases heq : l = m
  · exact hm (heq ▸ hl)
  · have habsent := ht.get?_of_prefix hm hpre heq
    rw [hl] at habsent
    cases habsent

theorem ChangedBelow.of_directory (h : ChangedBelow root t u) (ht : t.WellFormed)
    (hroot : t.get? root = some .directory) : SameOutside (root ++ [sourceName]) t u := by
  intro m hm
  by_contra hne
  rcases h m hne with ⟨hbelow, -⟩ | ⟨hpre, habsent, -⟩
  · exact hm hbelow
  · rw [isDirectory_above ht hroot hpre] at habsent
    cases habsent

theorem SameOutside.mono (h : SameOutside m t u) (hpre : l <+: m) : SameOutside l t u :=
  fun k hk ↦ h k fun hmk ↦ hk (hpre.trans hmk)

end Tree

open CanvasLift.Tree (ChangedBelow SameOutside)

namespace Generation

theorem onWay_cases {names : List Name} (hup : Path.up ∉ root)
    (hnames : names <+: root ++ [sourceName] ++ [componentsName])
    (hm : u.locate ⟨.root, names⟩ = .ok m) :
    (root ++ [sourceName] <+: m ∧ u.get? root = some .directory) ∨ m <+: root := by
  have hupWay : Path.up ∉ root ++ [sourceName] ++ [componentsName] :=
    List.not_mem_append (List.not_mem_append hup (by decide)) (by decide)
  have hfollow := Tree.follow_of_locate hm
  obtain rfl : m = names := Tree.eq_append_of_follow (fun h ↦ hupWay (hnames.subset h)) hfollow
  rcases List.prefix_or_prefix_of_prefix hnames (List.prefix_append _ _) with hpre | hpre
  · rcases List.prefix_concat_iff.1 hpre with rfl | hpre
    · exact .inl ⟨List.prefix_rfl, Tree.get?_of_follow_append hup hfollow⟩
    · exact .inr hpre
  · obtain ⟨rest, rfl⟩ := hpre
    rw [List.append_assoc] at hfollow
    exact .inl ⟨List.prefix_append _ _, Tree.get?_of_follow_append hup hfollow⟩

theorem changedBelow_run (host : Host) (hup : Path.up ∉ root) (t : Tree) (given : Json)
    (records : List Log.Record) :
    ChangedBelow root t
      ((run host (.defaults ⟨.root, root⟩) given).run ⟨t, records, none⟩).2.tree := by
  have hcases := run_fails_or_places host (.defaults ⟨.root, root⟩) given t records
  dsimp only at hcases
  generalize ((run host (.defaults ⟨.root, root⟩) given).run ⟨t, records, none⟩).2.tree = u at hcases ⊢
  have hnew : ∀ m, Tree.NewDirectory (Settings.defaults ⟨.root, root⟩).componentsDirectory t u m →
      (root ++ [sourceName] <+: m ∧ u.get? root = some .directory) ∨
        (m <+: root ∧ t.get? m = none ∧ u.get? m = some .directory) := by
    intro m hm
    obtain ⟨names, hnames, hloc⟩ := hm.onWay
    rw [componentsDirectory_defaults] at hnames hloc
    exact (onWay_cases hup hnames hloc).imp_right fun hpre ↦ ⟨hpre, hm.absent, hm.present⟩
  rcases hcases with ⟨-, hgrown⟩ | ⟨raw, id, d, -, -, -, hplaced, -⟩
  · exact fun m hne ↦ hnew m ((hgrown m).resolve_left hne)
  · intro m hne
    by_cases hm : m = d ++ [WideText.ofText (id ++ Settings.componentEnding)]
    · have hfollow := Tree.follow_of_locate hplaced.directory
      rw [componentsDirectory_defaults] at hfollow
      have hd := Tree.eq_append_of_follow
        (List.not_mem_append (List.not_mem_append hup (by decide)) (by decide)) hfollow
      rw [hm, hd, List.nil_append, List.append_assoc]
      rw [List.append_assoc] at hfollow
      exact .inl ⟨List.prefix_append _ _, Tree.get?_of_follow_append hup hfollow⟩
    · exact hnew m ((hplaced.others m hm).resolve_left hne)

end Generation

namespace Deletion

theorem Revised.get?_eq_none {files : List Path} (h : Revised s id files t u)
    (hm : t.get? m = none) : u.get? m = none := by
  rcases h.partly m with hsame | ⟨old, new, hrev, -⟩
  · exact hsame.trans hm
  · have hcontent := hrev.content
    rw [hm] at hcontent
    cases hcontent

theorem Without.get?_eq_none (h : Without p t u) (hm : t.get? m = none) : u.get? m = none := by
  cases hu : u.get? m with
  | none => rfl
  | some e =>
    rw [h.get?_eq_some hu] at hm
    cases hm

theorem Without.exists_prefix (h : Without p t u) (hne : u.get? m ≠ t.get? m) :
    ∃ l, t.locate p = .ok l ∧ l <+: m := by
  rcases h with rfl | ⟨l, hl, rfl⟩
  · exact absurd rfl hne
  · refine ⟨l, hl, ?_⟩
    by_contra hnot
    by_cases hm : m = []
    · exact hne (by rw [hm]; rfl)
    · exact hne (by rw [Tree.get?_remove hm, if_neg hnot])

section Defaults

variable (hup : Path.up ∉ root)
include hup

theorem prefix_of_sourceAt {names : List Name} {content : Bytes}
    (h : SourceAt (.defaults ⟨.root, root⟩) t names l content) : root ++ [sourceName] <+: l := by
  obtain ⟨top, htop, rfl⟩ := h.below
  rw [sourceDirectory_defaults] at htop
  have heq := Tree.eq_append_of_follow (List.not_mem_append hup (by decide))
    (Tree.follow_of_locate htop)
  rw [heq]
  exact List.prefix_append _ _

theorem prefix_of_locate_child {name : Name} (hname : name ≠ Path.up)
    (h : t.locate ((Settings.defaults ⟨.root, root⟩).componentsDirectory.child name) = .ok l) :
    root ++ [sourceName] <+: l := by
  rw [componentsDirectory_defaults] at h
  have hupAll : Path.up ∉ root ++ [sourceName] ++ [componentsName] ++ [name] :=
    List.not_mem_append (List.not_mem_append (List.not_mem_append hup (by decide)) (by decide))
      (by simpa using Ne.symm hname)
  have heq := Tree.eq_append_of_follow hupAll (Tree.follow_of_locate h)
  rw [heq, List.nil_append, List.append_assoc]
  exact List.prefix_append _ _

theorem Revised.exists_prefix {files : List Path} {plan : List (Path × Text)}
    (h : Revised (.defaults ⟨.root, root⟩) id files t u) (ht : t.WellFormed)
    (hfiles : sourceFiles (.defaults ⟨.root, root⟩) t = .ok files)
    (hplan : planned (.defaults ⟨.root, root⟩) id t files = .ok plan)
    (hne : u.get? m ≠ t.get? m) : root ++ [sourceName] <+: m := by
  obtain ⟨found, hfound, rfl⟩ := exists_found ht hfiles
  rcases h.partly m with hsame | ⟨old, new, hrev, -⟩
  · exact absurd hsame hne
  · obtain ⟨-, names, hat, -⟩ := (revision_iff ht hfound hplan).1 hrev
    exact prefix_of_sourceAt hup hat

theorem Ends.exists_prefix {report : Deletion} (ht : t.WellFormed)
    (h : Ends (.defaults ⟨.root, root⟩) given t report w) (hne : w.get? m ≠ t.get? m) :
    root ++ [sourceName] <+: m ∧ t.get? m ≠ none := by
  cases h with
  | unusable hid => exact absurd rfl hne
  | unread hid hread => exact absurd rfl hne
  | stuck hid hfiles hplan hstat hu =>
    refine ⟨hu.exists_prefix hup ht hfiles hplan hne, fun hm ↦ hne ?_⟩
    rw [hu.get?_eq_none hm, hm]
  | @done id files plan _ _ u v _ hid hfiles hplan hstat hu hv hw =>
    obtain ⟨-, -, -, hid'⟩ := Identifier.require_eq_ok_iff.1 hid
    refine ⟨?_, fun hm ↦ hne ?_⟩
    · by_cases hwv : w.get? m = v.get? m
      · by_cases hvu : v.get? m = u.get? m
        · apply hu.exists_prefix hup ht hfiles hplan
          rwa [← hvu, ← hwv]
        · obtain ⟨l, hl, hpre⟩ := hv.exists_prefix hvu
          exact (prefix_of_locate_child hup (Settings.componentName_ne_up _) hl).trans hpre
      · obtain ⟨l, hl, hpre⟩ := hw.exists_prefix hwv
        exact (prefix_of_locate_child hup (Identifier.ne_up_of_require hid) hl).trans hpre
    · rw [hw.get?_eq_none (hv.get?_eq_none (hu.get?_eq_none hm)), hm]

theorem changedBelow_run (ht : t.WellFormed) (given : Json) (records : List Log.Record) :
    ChangedBelow root t
      ((run (.defaults ⟨.root, root⟩) given).run ⟨t, records, none⟩).2.tree := by
  have hends := ends_run (.defaults ⟨.root, root⟩) given t records
  generalize ((run (.defaults ⟨.root, root⟩) given).run ⟨t, records, none⟩).2.tree = w at hends ⊢
  intro m hne
  obtain ⟨hpre, hthere⟩ := hends.exists_prefix hup ht hne
  have hroot : t.get? root = some .directory := by
    by_contra hnot
    refine hthere (ht.get?_of_prefix hnot ((List.prefix_append _ _).trans hpre) ?_)
    intro hm
    exact Tree.not_concat_prefix root sourceName (hm ▸ hpre)
  refine .inl ⟨hpre, ?_⟩
  by_contra hnot
  have hgone : w.get? root ≠ t.get? root := by rwa [hroot]
  exact Tree.not_concat_prefix root sourceName (hends.exists_prefix hup ht hgone).1

end Defaults

end Deletion

/-- What the project that is given by a path makes of a tree: it reaches no further than the `src` of
its root, and that lies in the path where the path is a directory or the missing `src` of one. -/
structure Confined (p : Path) (t u : Tree) : Prop where
  changedBelow : ChangedBelow (Settings.rootOf t p) t u
  sameOutside_iff : SameOutside p.names t u ↔
    t.isDirectory p = .ok true ∨
      (∃ parent, p.names = parent ++ [sourceName] ∧ t.get? parent = some .directory) ∨
      ∀ m, u.get? m = t.get? m

theorem sameOutside_of_isDirectory (ht : t.WellFormed) (hup : Path.up ∉ p.names)
    (hdir : t.isDirectory p = .ok true) (h : ChangedBelow (Settings.rootOf t p) t u) :
    SameOutside p.names t u := by
  obtain ⟨l, hl, hthere⟩ := Tree.isDirectory_eq_true_iff.1 hdir
  rw [Tree.eq_append_of_follow hup (Tree.follow_of_locate hl)] at hthere
  rw [Settings.rootOf_of_isDirectory hdir] at h
  exact (h.of_directory ht hthere).mono (List.prefix_append _ _)

theorem eq_sourceName_of_sameOutside {parent : Location} {name : Name}
    (h : ChangedBelow parent t u) (hsame : SameOutside (parent ++ [name]) t u)
    (hne : u.get? m ≠ t.get? m) : name = sourceName ∧ t.get? parent = some .directory := by
  have hinside : parent ++ [name] <+: m := by
    by_contra hout
    exact hne (hsame m hout)
  rcases h m hne with ⟨hbelow, hnow⟩ | ⟨hpre, -⟩
  · have heq : parent ++ [sourceName] = parent ++ [name] :=
      (List.prefix_of_prefix_length_le hbelow hinside (by simp)).eq_of_length (by simp)
    refine ⟨(List.append_singleton_inj.1 heq).2.symm, ?_⟩
    rw [← hsame parent (Tree.not_concat_prefix parent name), hnow]
  · exact absurd (hinside.trans hpre) (Tree.not_concat_prefix parent name)

theorem confined_of_changedBelow (ht : t.WellFormed) (hroot : p.anchor = .root)
    (hup : Path.up ∉ p.names) (h : ChangedBelow (Settings.rootOf t p) t u) : Confined p t u := by
  refine ⟨h, ?_⟩
  by_cases hdir : t.isDirectory p = .ok true
  · exact ⟨fun _ ↦ .inl hdir, fun _ ↦ sameOutside_of_isDirectory ht hup hdir h⟩
  · -- The path is taken for that of a file, and its parent is the root.
    rw [Settings.rootOf_of_not_isDirectory hdir] at h
    obtain ⟨anchor, names⟩ := p
    obtain rfl : anchor = .root := hroot
    cases names using List.reverseRecOn with
    | nil => exact absurd t.isDirectory_root hdir
    | append_singleton parent name =>
      rw [List.dropLast_concat] at h
      constructor
      · intro hsame
        refine .inr (or_iff_not_imp_right.2 fun hchanged ↦ ?_)
        obtain ⟨m, hne⟩ := not_forall.1 hchanged
        obtain ⟨rfl, hparent⟩ := eq_sourceName_of_sameOutside h hsame hne
        exact ⟨parent, rfl, hparent⟩
      · intro hcases
        rcases hcases with hdir' | ⟨parent', hnames, hparent⟩ | hsame
        · exact absurd hdir' hdir
        · obtain ⟨rfl, rfl⟩ := List.append_singleton_inj.1 hnames
          exact h.of_directory ht hparent
        · exact fun m _ ↦ hsame m

theorem confined_refl (hroot : p.anchor = .root) (hup : Path.up ∉ p.names) (ht : t.WellFormed) :
    Confined p t t :=
  confined_of_changedBelow ht hroot hup fun _ hne ↦ absurd rfl hne

end CanvasLift
