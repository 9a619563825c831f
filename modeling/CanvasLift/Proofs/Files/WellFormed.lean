import CanvasLift.Proofs.Files.Lookup
import CanvasLift.Proofs.Files.Walk
import Mathlib.Data.List.Induction

namespace CanvasLift.Tree

/-- Every entry lies in a directory of the tree, and the name `..` is kept for the way up. -/
def WellFormed (t : Tree) : Prop :=
  ∀ e ∈ t.entries, Path.up ∉ e.1 ∧ (e.1 = [] ∨ t.get? e.1.dropLast = some .directory)

instance (t : Tree) : Decidable t.WellFormed :=
  inferInstanceAs (Decidable (∀ e ∈ t.entries, _))

variable {t u : Tree} {l m : Location} {e : Entry} {name : Name}

theorem WellFormed.up_not_mem (ht : t.WellFormed) (h : t.get? l = some e) : Path.up ∉ l := by
  by_cases hl : l = []
  · rw [hl]
    exact List.not_mem_nil
  · exact (ht _ ((mem_entries_iff hl).2 h)).1

theorem WellFormed.get?_parent (ht : t.WellFormed) (h : t.get? (l ++ [name]) = some e) :
    t.get? l = some .directory := by
  obtain ⟨-, hnil | hdir⟩ := ht _ ((mem_entries_iff (by simp)).2 h)
  · simp at hnil
  · simpa using hdir

theorem WellFormed.get?_below (ht : t.WellFormed) (h : t.get? l ≠ some .directory)
    {names : List Name} (hne : names ≠ []) : t.get? (l ++ names) = none := by
  induction names using List.reverseRecOn with
  | nil => exact absurd rfl hne
  | append_singleton names name ih =>
    rw [← List.append_assoc]
    cases he : t.get? (l ++ names ++ [name]) with
    | none => rfl
    | some e =>
      have hdir := ht.get?_parent he
      by_cases hnames : names = []
      · rw [hnames, List.append_nil] at hdir
        exact absurd hdir h
      · rw [ih hnames] at hdir
        cases hdir

theorem WellFormed.get?_of_prefix (ht : t.WellFormed) (h : t.get? l ≠ some .directory)
    (hlm : l <+: m) (hne : m ≠ l) : t.get? m = none := by
  obtain ⟨names, rfl⟩ := hlm
  exact ht.get?_below h fun hnil ↦ hne (by rw [hnil, List.append_nil])

theorem WellFormed.set (ht : t.WellFormed) (hparent : t.get? l = some .directory)
    (hname : name ≠ Path.up) (hkind : t.get? (l ++ [name]) = some .directory → e = .directory) :
    (t.set (l ++ [name]) e).WellFormed := by
  have hne : l ++ [name] ≠ [] := by simp
  have hdir : ∀ m, t.get? m = some .directory →
      (t.set (l ++ [name]) e).get? m = some .directory := by
    intro m hm
    by_cases hml : m = l ++ [name]
    · subst hml
      rw [get?_set_self t e hne, hkind hm]
    · rwa [get?_set_of_ne t e hml]
  rintro ⟨m, e'⟩ hmem
  by_cases hm : m = []
  · exact ⟨by simp [hm], .inl hm⟩
  · have hget := (mem_entries_iff hm).1 hmem
    by_cases hml : m = l ++ [name]
    · subst hml
      refine ⟨?_, .inr (by simpa using hdir l hparent)⟩
      simpa [Ne.symm hname] using ht.up_not_mem hparent
    · rw [get?_set_of_ne t e hml] at hget
      obtain ⟨hup, hnil | hin⟩ := ht _ ((mem_entries_iff hm).2 hget)
      · exact absurd hnil hm
      · exact ⟨hup, .inr (hdir _ hin)⟩

theorem wellFormed_iff : t.WellFormed ↔ ∀ l e, l ≠ [] → t.get? l = some e →
    Path.up ∉ l ∧ t.get? l.dropLast = some .directory := by
  constructor
  · intro ht l e hne hl
    obtain ⟨hup, hnil | hdir⟩ := ht _ ((mem_entries_iff hne).2 hl)
    · exact absurd hnil hne
    · exact ⟨hup, hdir⟩
  · rintro h ⟨l, e⟩ hmem
    by_cases hne : l = []
    · exact ⟨by simp [hne], .inl hne⟩
    · obtain ⟨hup, hdir⟩ := h l e hne ((mem_entries_iff hne).1 hmem)
      exact ⟨hup, .inr hdir⟩

theorem WellFormed.sameKinds (ht : t.WellFormed) (h : t.SameKinds u) : u.WellFormed := by
  refine wellFormed_iff.2 fun l e hne hl ↦ ?_
  obtain ⟨e', hl'⟩ : ∃ e', t.get? l = some e' := by
    cases ht' : t.get? l with
    | some e' => exact ⟨e', rfl⟩
    | none =>
      have hkind := h l
      rw [ht', hl] at hkind
      cases hkind
  obtain ⟨hup, hdir⟩ := wellFormed_iff.1 ht l e' hne hl'
  have hkind := h l.dropLast
  rw [hdir] at hkind
  exact ⟨hup, map_isDirectory_eq_true_iff.1 hkind.symm⟩

theorem get?_append_self {content : Bytes} (h : t.get? l = some (.file content)) (more : Bytes) :
    (t.append l more).get? l = some (.file (content ++ more)) := by
  have hne : l ≠ [] := by
    rintro rfl
    cases h
  rw [append, h]
  exact get?_set_self t _ hne

theorem get?_append_of_ne (h : m ≠ l) (more : Bytes) : (t.append l more).get? m = t.get? m := by
  rw [append]
  split
  · exact get?_set_of_ne t _ h
  · rfl

theorem sameKinds_append (t : Tree) (l : Location) (more : Bytes) :
    t.SameKinds (t.append l more) := by
  intro m
  by_cases hm : m = l
  · subst hm
    cases he : t.get? m with
    | none => simp only [append, he]
    | some e =>
      cases e with
      | directory => simp only [append, he]
      | file content =>
        rw [get?_append_self he]
        rfl
  · rw [get?_append_of_ne hm]

theorem WellFormed.remove (ht : t.WellFormed) (l : Location) : (t.remove l).WellFormed := by
  refine wellFormed_iff.2 fun m e hne hm ↦ ?_
  obtain ⟨hup, hdir⟩ := wellFormed_iff.1 ht m e hne (get?_of_get?_remove hm)
  refine ⟨hup, ?_⟩
  by_cases hnil : m.dropLast = []
  · rw [hnil]
    rfl
  · rw [get?_remove hne] at hm
    split at hm
    · cases hm
    · next hnot =>
      rw [get?_remove hnil, if_neg fun hpre ↦ hnot (hpre.trans (List.dropLast_prefix m)), hdir]

theorem eq_append_of_follow {here : Location} {names : List Name} (hup : Path.up ∉ names)
    (h : t.follow here names = .ok l) : l = here ++ names := by
  induction names generalizing here with
  | nil =>
    rw [List.append_nil]
    exact (Except.ok.inj h).symm
  | cons name names ih =>
    obtain ⟨hname, hup⟩ := not_or.1 (mt List.mem_cons.2 hup)
    rw [follow] at h
    split at h
    · cases h
    · cases h
    · rw [if_neg (Ne.symm hname)] at h
      split at h
      · cases h
      · rw [ih hup h, List.append_assoc, List.singleton_append]

theorem get?_of_follow_append {names : List Name} (hup : Path.up ∉ l)
    (h : t.follow [] (l ++ name :: names) = .ok m) : t.get? l = some .directory := by
  rw [follow_append] at h
  cases hl : t.follow [] l with
  | error refusal =>
    rw [hl] at h
    cases h
  | ok l' =>
    obtain rfl : l' = l := eq_append_of_follow hup hl
    rw [hl] at h
    exact get?_of_follow_cons h

theorem WellFormed.follow (hu : u.WellFormed) {here : Location} {names : List Name}
    (hup : Path.up ∉ names) (h : t.follow here names = .ok l) (hl : u.get? l = some e) :
    u.follow here names = .ok l := by
  induction names generalizing here with
  | nil => exact h
  | cons name names ih =>
    have hlocation := eq_append_of_follow hup h
    obtain ⟨hname, hup⟩ := not_or.1 (mt List.mem_cons.2 hup)
    have hdir : u.get? here = some .directory := by
      by_contra hnone
      rw [hlocation, hu.get?_below hnone (List.cons_ne_nil _ _)] at hl
      cases hl
    rw [Tree.follow] at h ⊢
    rw [hdir]
    split at h
    · cases h
    · cases h
    · rw [if_neg (Ne.symm hname)] at h ⊢
      split at h
      · cases h
      · next hshort =>
        rw [if_neg hshort]
        exact ih hup h

theorem eq_append_of_locate {p : Path} {top : Location} {names : List Name}
    (hp : t.locate p = .ok top) (hup : Path.up ∉ names)
    (h : t.locate (p.join ⟨.here, names⟩) = .ok l) : l = top ++ names := by
  have hf := follow_of_locate h
  have hjoin : (p.join ⟨.here, names⟩).names = p.names ++ names := rfl
  rw [hjoin, follow_append, follow_of_locate hp] at hf
  exact eq_append_of_follow hup hf

theorem WellFormed.locate (hu : u.WellFormed) {p : Path} {top : Location} {names : List Name}
    (hp : t.locate p = .ok top) (hp' : u.locate p = .ok top) (hup : Path.up ∉ names)
    (h : t.locate (p.join ⟨.here, names⟩) = .ok l) (hl : u.get? l = some e) :
    u.locate (p.join ⟨.here, names⟩) = .ok l := by
  have hjoin : (p.join ⟨.here, names⟩).names = p.names ++ names := rfl
  have hf := follow_of_locate h
  refine locate_of_follow h ?_
  rw [hjoin, follow_append, follow_of_locate hp] at hf
  rw [hjoin, follow_append, follow_of_locate hp']
  exact hu.follow hup hf hl

end CanvasLift.Tree
