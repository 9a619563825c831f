import CanvasLift.Proofs.Files.Lookup

namespace CanvasLift.Tree

/-- A place where a directory is new in `u`, one that `p` leads to or through. -/
structure NewDirectory (p : Path) (t u : Tree) (l : Location) : Prop where
  absent : t.get? l = none
  present : u.get? l = some .directory
  onWay : ∃ names, names <+: p.names ∧ u.locate ⟨p.anchor, names⟩ = .ok l

/-- `u` is `t` with, at most, some missing directories made on the way of `p`. -/
def Grown (p : Path) (t u : Tree) : Prop := ∀ l, u.get? l = t.get? l ∨ NewDirectory p t u l

theorem Grown.refl (p : Path) (t : Tree) : Grown p t t := fun _ ↦ .inl rfl

variable {p q : Path} {t u v : Tree}

theorem Grown.directoriesIn (h : Grown p t u) : DirectoriesIn t u := by
  intro l hl
  obtain he | hnew := h l
  · rw [he, hl]
  · exact hnew.present

theorem Grown.trans (h : Grown p t u) (h' : Grown q u v) (ha : p.anchor = q.anchor)
    (hn : p.names <+: q.names) : Grown q t v := by
  intro l
  obtain he | hnew := h l
  · obtain he' | hnew' := h' l
    · exact .inl (he'.trans he)
    · exact .inr ⟨he ▸ hnew'.absent, hnew'.present, hnew'.onWay⟩
  · obtain ⟨names, hpre, hloc⟩ := hnew.onWay
    refine .inr ⟨hnew.absent, h'.directoriesIn l hnew.present, names, hpre.trans hn, ?_⟩
    rw [← ha]
    exact locate_ok_of_directoriesIn h'.directoriesIn hloc

def HasDirectory (t : Tree) (p : Path) : Prop :=
  ∃ l, t.locate p = .ok l ∧ t.get? l = some .directory

theorem grown_of_makeDirectory (h : t.makeDirectory p = .ok u) :
    Grown p t u ∧ u.HasDirectory p := by
  rw [makeDirectory] at h
  cases hl : t.locate p with
  | error fault =>
    rw [hl] at h
    cases h
  | ok l =>
    cases he : t.get? l with
    | some e => simp [hl, he, bind, Except.bind] at h
    | none =>
      have hu : t.set l .directory = u := by simpa [hl, he, bind, Except.bind] using h
      have hne : l ≠ [] := by
        intro hnil
        rw [hnil] at he
        cases he
      have hnew : u.get? l = some .directory := by rw [← hu, get?_set_self t _ hne]
      have hold : ∀ m, m ≠ l → u.get? m = t.get? m := by
        intro m hm
        rw [← hu, get?_set_of_ne t _ hm]
      have hin : DirectoriesIn t u := by
        intro m hm
        rw [hold m, hm]
        intro heq
        rw [heq, he] at hm
        cases hm
      have hloc := locate_ok_of_directoriesIn hin hl
      refine ⟨fun m ↦ ?_, l, hloc, hnew⟩
      by_cases hm : m = l
      · subst hm
        exact .inr ⟨he, hnew, p.names, List.prefix_rfl, hloc⟩
      · exact .inl (hold m hm)

theorem hasDirectory_of_orPresent {fault : FileFault} (h : t.orPresent p fault = .ok ()) :
    t.HasDirectory p := by
  rw [orPresent] at h
  split at h
  · next hdir => exact isDirectory_eq_true_iff.1 hdir
  · cases h
  · cases h

theorem grown_makeDirectoriesAt (t : Tree) (anchor : Anchor) (names : List Name) :
    Grown ⟨anchor, names.reverse⟩ t (t.makeDirectoriesAt anchor names).2 ∧
      ((t.makeDirectoriesAt anchor names).1 = .ok () →
        (t.makeDirectoriesAt anchor names).2.HasDirectory ⟨anchor, names.reverse⟩) := by
  induction names with
  | nil => exact ⟨.refl _ _, hasDirectory_of_orPresent⟩
  | cons name above ih =>
    have habove : above.reverse <+: (name :: above).reverse := by
      rw [List.reverse_cons]
      exact List.prefix_append _ _
    rw [makeDirectoriesAt]
    split
    · next made hmade =>
      obtain ⟨hgrown, hdir⟩ := grown_of_makeDirectory hmade
      exact ⟨hgrown, fun _ ↦ hdir⟩
    · split
      · next fault made hab =>
        rw [hab] at ih
        refine ⟨ih.1.trans (.refl _ _) rfl habove, fun h ↦ ?_⟩
        cases h
      · next made hab =>
        rw [hab] at ih
        split
        · next last hlast =>
          obtain ⟨hgrown, hdir⟩ := grown_of_makeDirectory hlast
          exact ⟨ih.1.trans hgrown rfl habove, fun _ ↦ hdir⟩
        · refine ⟨ih.1.trans (.refl _ _) rfl habove, fun h ↦ ?_⟩
          cases h
        · exact ⟨ih.1.trans (.refl _ _) rfl habove, hasDirectory_of_orPresent⟩
    · exact ⟨.refl _ _, hasDirectory_of_orPresent⟩
    · refine ⟨.refl _ _, fun h ↦ ?_⟩
      cases h

theorem grown_makeDirectories (t : Tree) (p : Path) : Grown p t (t.makeDirectories p).2 := by
  have h := (grown_makeDirectoriesAt t p.anchor p.names.reverse).1
  rwa [List.reverse_reverse] at h

theorem hasDirectory_makeDirectories {t : Tree} {p : Path}
    (h : (t.makeDirectories p).1 = .ok ()) : (t.makeDirectories p).2.HasDirectory p := by
  have h' := (grown_makeDirectoriesAt t p.anchor p.names.reverse).2 h
  rwa [List.reverse_reverse] at h'

theorem makeDirectories_of_isDirectory (h : t.isDirectory p = .ok true) :
    t.makeDirectories p = (.ok (), t) := by
  have hpresent : ∀ fault, t.orPresent p fault = .ok () := fun fault ↦ by rw [orPresent, h]
  obtain ⟨anchor, names⟩ := p
  rw [makeDirectories]
  cases hnames : names.reverse with
  | nil =>
    obtain rfl := List.reverse_eq_nil_iff.1 hnames
    rw [makeDirectoriesAt, hpresent]
  | cons name above =>
    have hexists : t.makeDirectory ⟨anchor, names⟩ = .error (.refused .exists ⟨anchor, names⟩) := by
      obtain ⟨l, hl, hdir⟩ := isDirectory_eq_true_iff.1 h
      simp [makeDirectory, hl, hdir, bind, Except.bind]
    rw [makeDirectoriesAt, ← hnames, List.reverse_reverse, hexists]
    dsimp only
    rw [hpresent]

end CanvasLift.Tree
