import CanvasLift.Files.Access

/-!
Where paths lead. Only the directories of a tree decide it, so a tree with the same directories, or
with more of them, leads a path to the same place.
-/

namespace CanvasLift

def Entry.isDirectory : Entry → Bool
  | .directory => true
  | .file _ => false

namespace Tree

variable {t u : Tree}

def DirectoriesIn (t u : Tree) : Prop :=
  ∀ l, t.get? l = some .directory → u.get? l = some .directory

/-- The same places hold files, whatever is in them, and the same places hold directories. -/
def SameKinds (t u : Tree) : Prop :=
  ∀ l, (t.get? l).map Entry.isDirectory = (u.get? l).map Entry.isDirectory

theorem map_isDirectory_eq_true_iff {e : Option Entry} :
    e.map Entry.isDirectory = some true ↔ e = some .directory := by
  cases e with
  | none => simp
  | some e => cases e <;> simp [Entry.isDirectory]

theorem map_isDirectory_eq_false_iff {e : Option Entry} :
    e.map Entry.isDirectory = some false ↔ ∃ content, e = some (.file content) := by
  cases e with
  | none => simp
  | some e => cases e <;> simp [Entry.isDirectory]

theorem SameKinds.exists_file (h : SameKinds t u) {l : Location} {content : Bytes}
    (hl : t.get? l = some (.file content)) : ∃ content', u.get? l = some (.file content') := by
  rw [← map_isDirectory_eq_false_iff, ← h l, hl]
  rfl

theorem SameKinds.symm (h : SameKinds t u) : SameKinds u t := fun l ↦ (h l).symm

theorem get?_remove {l m : Location} (hm : m ≠ []) :
    (t.remove l).get? m = if l <+: m then none else t.get? m := by
  simp only [get?, hm, ↓reduceIte, remove, restrict]
  induction t.entries with
  | nil => simp
  | cons e es ih =>
    obtain ⟨k, v⟩ := e
    by_cases hk : l <+: k
    · rw [List.filter_cons_of_neg (by simpa using hk), ih]
      split
      · rfl
      · next hnot =>
        have hmk : (m == k) = false := by
          apply beq_false_of_ne
          intro heq
          exact hnot (heq ▸ hk)
        rw [List.lookup_cons, hmk]
    · have hkeep : (!l.isPrefixOf k) = true := by
        rw [Bool.not_eq_true', ← Bool.not_eq_true, List.isPrefixOf_iff_prefix]
        exact hk
      rw [List.filter_cons_of_pos (by exact hkeep), List.lookup_cons, List.lookup_cons, ih]
      cases hmk : m == k with
      | false => rfl
      | true =>
        obtain rfl := eq_of_beq hmk
        exact (if_neg hk).symm

theorem get?_of_get?_remove {l m : Location} {e : Entry} (h : (t.remove l).get? m = some e) :
    t.get? m = some e := by
  by_cases hm : m = []
  · rw [hm] at h ⊢
    exact h
  · rw [get?_remove hm] at h
    split at h
    · cases h
    · exact h

theorem follow_append (t : Tree) (here : Location) (names more : List Name) :
    t.follow here (names ++ more) = (t.follow here names).bind fun l ↦ t.follow l more := by
  induction names generalizing here with
  | nil => rw [List.nil_append, follow]; rfl
  | cons name names ih =>
    rw [List.cons_append, follow, follow]
    split
    · rfl
    · rfl
    · split
      · exact ih _
      · split
        · rfl
        · exact ih _

theorem get?_of_follow_cons {here l : Location} {name : Name} {names : List Name}
    (h : t.follow here (name :: names) = .ok l) : t.get? here = some .directory := by
  rw [follow] at h
  split at h
  · cases h
  · cases h
  · next hdir => exact hdir

theorem follow_ok_of_directoriesIn (h : DirectoriesIn t u) {here l : Location} {names : List Name}
    (hl : t.follow here names = .ok l) : u.follow here names = .ok l := by
  induction names generalizing here with
  | nil => exact hl
  | cons name names ih =>
    rw [follow] at hl ⊢
    split at hl
    · cases hl
    · cases hl
    · next hdir =>
      rw [h here hdir]
      dsimp only
      split at hl
      · next hup =>
        rw [if_pos hup]
        exact ih hl
      · next hup =>
        split at hl
        · cases hl
        · next hshort =>
          rw [if_neg hup, if_neg hshort]
          exact ih hl

theorem follow_tooLong_of_directoriesIn (h : DirectoriesIn t u) {here : Location}
    {names : List Name} (hl : t.follow here names = .error .nameTooLong) :
    u.follow here names = .error .nameTooLong := by
  induction names generalizing here with
  | nil => cases hl
  | cons name names ih =>
    rw [follow] at hl ⊢
    split at hl
    · cases hl
    · cases hl
    · next hdir =>
      rw [h here hdir]
      dsimp only
      split at hl
      · next hup =>
        rw [if_pos hup]
        exact ih hl
      · next hup =>
        split at hl
        · next hlong => rw [if_neg hup, if_pos hlong]
        · next hshort =>
          rw [if_neg hup, if_neg hshort]
          exact ih hl

theorem follow_sameKinds (h : SameKinds t u) (here : Location) (names : List Name) :
    t.follow here names = u.follow here names := by
  induction names generalizing here with
  | nil => rfl
  | cons name names ih =>
    rw [follow, follow]
    have hk := h here
    cases ht : t.get? here with
    | none =>
      rw [ht] at hk
      rw [Option.map_eq_none_iff.1 hk.symm]
    | some e =>
      rw [ht] at hk
      cases e with
      | directory => rw [map_isDirectory_eq_true_iff.1 hk.symm]; simp only [ih]
      | file content =>
        obtain ⟨content', hu⟩ := map_isDirectory_eq_false_iff.1 hk.symm
        rw [hu]

theorem locate_sameKinds (h : SameKinds t u) (p : Path) : t.locate p = u.locate p := by
  rw [locate, locate, follow_sameKinds h]

theorem follow_of_locate {p : Path} {l : Location} (h : t.locate p = .ok l) :
    t.follow [] p.names = .ok l := by
  rw [locate] at h
  split at h
  · cases h
  · split at h
    · cases h
    · split at h
      · next hf => rw [hf, Except.ok.inj h]
      · cases h

theorem locate_of_follow {p : Path} {l : Location} (h : t.locate p = .ok l)
    (hf : u.follow [] p.names = .ok l) : u.locate p = .ok l := by
  rw [locate] at h ⊢
  split at h
  · cases h
  · split at h
    · cases h
    · next hlen => rw [if_neg hlen, hf]

theorem locate_ok_of_directoriesIn (h : DirectoriesIn t u) {p : Path} {l : Location}
    (hl : t.locate p = .ok l) : u.locate p = .ok l :=
  locate_of_follow hl (follow_ok_of_directoriesIn h (follow_of_locate hl))

structure SameDirectories (t u : Tree) : Prop where
  left : DirectoriesIn t u
  right : DirectoriesIn u t

theorem SameDirectories.symm (h : SameDirectories t u) : SameDirectories u t := ⟨h.right, h.left⟩

theorem SameDirectories.locate_eq_ok_iff (h : SameDirectories t u) {p : Path} {l : Location} :
    u.locate p = .ok l ↔ t.locate p = .ok l :=
  ⟨locate_ok_of_directoriesIn h.right, locate_ok_of_directoriesIn h.left⟩

theorem SameDirectories.get?_eq_directory_iff (h : SameDirectories t u) {l : Location} :
    u.get? l = some .directory ↔ t.get? l = some .directory :=
  ⟨h.right l, h.left l⟩

theorem SameDirectories.locate_child (h : SameDirectories t u) {p : Path} {d : Location}
    (name : Name) (hd : t.locate p = .ok d) (hdir : t.get? d = some .directory) :
    u.locate (p.child name) = t.locate (p.child name) := by
  have hfollow : u.follow [] (p.names ++ [name]) = t.follow [] (p.names ++ [name]) := by
    rw [follow_append, follow_append, follow_of_locate hd,
      follow_of_locate (h.locate_eq_ok_iff.2 hd)]
    simp only [Except.bind, follow, hdir, h.left d hdir]
  rw [locate, locate, Path.child, hfollow]

theorem follow_singleton {here l : Location} {name : Name} (hname : name ≠ Path.up)
    (h : t.follow here [name] = .ok l) :
    l = here ++ [name] ∧ t.get? here = some .directory := by
  rw [follow] at h
  split at h
  · cases h
  · cases h
  · next hdir =>
    rw [if_neg hname] at h
    split at h
    · cases h
    · exact ⟨(Except.ok.inj h).symm, hdir⟩

theorem locate_child {p : Path} {d l : Location} {name : Name} (hname : name ≠ Path.up)
    (hd : t.locate p = .ok d) (hl : t.locate (p.child name) = .ok l) :
    l = d ++ [name] ∧ t.get? d = some .directory := by
  have hf := follow_of_locate hl
  rw [Path.child, follow_append, follow_of_locate hd] at hf
  exact follow_singleton hname hf

theorem exists_of_locate_child {p : Path} {l : Location} {name : Name} (hname : name ≠ Path.up)
    (hl : t.locate (p.child name) = .ok l) : ∃ d, l = d ++ [name] ∧ t.get? d = some .directory := by
  have hf := follow_of_locate hl
  rw [Path.child, follow_append] at hf
  cases hd : t.follow [] p.names with
  | error refusal =>
    rw [hd] at hf
    cases hf
  | ok d =>
    rw [hd] at hf
    exact ⟨d, follow_singleton hname hf⟩

theorem isDirectory_eq_true_iff {p : Path} :
    t.isDirectory p = .ok true ↔ ∃ l, t.locate p = .ok l ∧ t.get? l = some .directory := by
  rw [isDirectory, stat]
  constructor
  · intro h
    split at h
    · next l hl => exact ⟨l, hl, of_decide_eq_true (Except.ok.inj h)⟩
    · cases h
    · cases h
  · intro h
    obtain ⟨l, hl, hdir⟩ := h
    rw [hl]
    exact congrArg Except.ok (decide_eq_true hdir)

theorem isFile_eq_true_iff {p : Path} :
    t.isFile p = .ok true ↔
      ∃ l content, t.locate p = .ok l ∧ t.get? l = some (.file content) := by
  rw [isFile, stat]
  constructor
  · intro h
    split at h
    · next l hl =>
      cases he : t.get? l with
      | none => simp [he, Except.map] at h
      | some e =>
        cases e with
        | directory => simp [he, Except.map] at h
        | file content => exact ⟨l, content, hl, he⟩
    · cases h
    · cases h
  · intro h
    obtain ⟨l, content, hl, hfile⟩ := h
    rw [hl]
    simp only [Except.map, hfile]

theorem read_eq_ok_iff {p : Path} {content : Bytes} :
    t.read p = .ok content ↔ ∃ l, t.locate p = .ok l ∧ t.get? l = some (.file content) := by
  rw [read]
  cases hl : t.locate p with
  | error fault => simp [bind, Except.bind]
  | ok l =>
    cases he : t.get? l with
    | none => simp [bind, Except.bind, he]
    | some e => cases e <;> simp [bind, Except.bind, he]

theorem write_eq_ok_iff {p : Path} {content : Bytes} {u : Tree} :
    t.write p content = .ok u ↔
      ∃ l, t.locate p = .ok l ∧ t.get? l ≠ some .directory ∧ u = t.set l (.file content) := by
  rw [write]
  cases hl : t.locate p with
  | error fault => simp [bind, Except.bind]
  | ok l =>
    cases he : t.get? l with
    | none => simp [bind, Except.bind, he, eq_comm]
    | some e => cases e <;> simp [bind, Except.bind, he, eq_comm]

theorem get?_of_write_eq_error {p : Path} {content : Bytes} {fault : FileFault} {l : Location}
    (h : t.write p content = .error fault) (hl : t.locate p = .ok l) :
    t.get? l = some .directory := by
  apply Classical.byContradiction
  intro hfree
  have hok : t.write p content = .ok (t.set l (.file content)) :=
    write_eq_ok_iff.2 ⟨l, hl, hfree, rfl⟩
  rw [h] at hok
  cases hok

theorem SameDirectories.write_eq_error (h : SameDirectories t u) {p : Path} {content : Bytes}
    {fault : FileFault} (hp : u.locate p = t.locate p) (ht : t.write p content = .error fault) :
    u.write p content = .error fault := by
  have hdir : ∀ l, t.locate p = .ok l → t.get? l = some .directory :=
    fun l ↦ get?_of_write_eq_error ht
  rw [write] at ht ⊢
  rw [hp]
  cases hl : t.locate p with
  | error other =>
    rw [hl] at ht
    exact ht
  | ok l =>
    simpa [hl, hdir l hl, h.get?_eq_directory_iff.2 (hdir l hl), bind, Except.bind] using ht

end Tree

end CanvasLift
