import CanvasLift.Project.Deletion
import CanvasLift.Proofs.Component.References
import CanvasLift.Proofs.Files.Lookup
import CanvasLift.Proofs.Project.Workspace
import CanvasLift.Proofs.Text.Utf8

namespace CanvasLift.Deletion

open Component.References (defaultImport strip strip_eq_self_iff not_mem_strip)

def revisionOf (id : Text) (bytes : Bytes) : Option Text :=
  match Utf8.decode bytes with
  | .error _ => none
  | .ok decoded =>
    let content := Text.unifyBreaks decoded
    let stripped := strip id content
    if stripped = content then none else some stripped

theorem revisionOf_eq_some_iff {id new : Text} {bytes : Bytes} :
    revisionOf id bytes = some new ↔
      ∃ old, bytes = Utf8.encode old ∧ new = strip id (Text.unifyBreaks old) ∧
        new ≠ Text.unifyBreaks old := by
  rw [revisionOf]
  constructor
  · intro h
    split at h
    · cases h
    · next old hold =>
      dsimp only at h
      split at h
      · cases h
      · next hne =>
        obtain rfl := Option.some.inj h
        exact ⟨old, (Utf8.encode_of_decode hold).symm, rfl, hne⟩
  · intro h
    obtain ⟨old, rfl, rfl, hne⟩ := h
    rw [Utf8.decode_encode]
    exact if_neg hne

theorem revisionOf_eq_none_iff {id : Text} {bytes : Bytes} :
    revisionOf id bytes = none ↔
      ∀ text, bytes = Utf8.encode text → strip id (Text.unifyBreaks text) = Text.unifyBreaks text := by
  rw [Option.eq_none_iff_forall_ne_some]
  constructor
  · intro h text htext
    apply Classical.byContradiction
    intro hne
    exact h _ (revisionOf_eq_some_iff.2 ⟨text, htext, rfl, hne⟩)
  · intro h new hnew
    obtain ⟨old, hold, rfl, hne⟩ := revisionOf_eq_some_iff.1 hnew
    exact hne (h old hold)

theorem revisionOf_encode_eq_none_iff {id text : Text} :
    revisionOf id (Utf8.encode text) = none ↔
      (defaultImport id).occursIn (Text.unifyBreaks text) = false := by
  rw [revisionOf_eq_none_iff, ← strip_eq_self_iff]
  constructor
  · exact fun h ↦ h text rfl
  · intro h other hother
    rwa [← Utf8.encode_injective hother]

theorem encode_ne_of_revisionOf {id new : Text} {bytes : Bytes}
    (h : revisionOf id bytes = some new) : Utf8.encode new ≠ bytes := by
  obtain ⟨old, rfl, rfl, hne⟩ := revisionOf_eq_some_iff.1 h
  intro heq
  have hold := Utf8.encode_injective heq
  have hclean : '\r' ∉ old := hold ▸ not_mem_strip (Text.not_mem_unifyBreaks old)
  exact hne (hold.trans (Text.unifyBreaks_of_not_mem hclean).symm)

/-- The files to revise with their new texts, if all files can be read. -/
def planned (s : Settings) (id : Text) (t : Tree) :
    List Path → Except FileFault (List (Path × Text))
  | [] => .ok []
  | p :: rest =>
    if isOwn s id p then planned s id t rest
    else match t.read p with
      | .error fault => .error fault
      | .ok bytes =>
        (planned s id t rest).map
          (((revisionOf id bytes).map fun text ↦ (p, text)).toList ++ ·)

theorem yields_look_file {α : Type} {t : Tree} {r : Except FileFault α}
    (f : Tree → Except FileFault α) (h : f t = r) :
    (look fun t ↦ (f t).mapError Fault.file).Yields t (r.mapError Fault.file) t := by
  rw [← h]
  exact Attempt.yields_look (fun t ↦ (f t).mapError Fault.file) t

theorem yields_revised? (s : Settings) (id : Text) (p : Path) (t : Tree) :
    (revised? s id p).Yields t (((t.read p).map (revisionOf id)).mapError Fault.file) t := by
  rw [revised?]
  cases hread : t.read p with
  | error fault => exact (yields_look_file (·.read p) hread).bind_error
  | ok bytes =>
    refine Attempt.Yields.bind (yields_look_file (·.read p) hread) ?_
    change Attempt.Yields _ t (.ok (revisionOf id bytes)) t
    simp only [revisionOf]
    cases Utf8.decode bytes with
    | error fault => exact (Attempt.yields_note _ _ _ t).bind (Attempt.yields_pure _ t)
    | ok decoded => exact Attempt.yields_pure _ t

theorem yields_revisions (s : Settings) (id : Text) (t : Tree) (files : List Path) :
    (revisions s id files).Yields t ((planned s id t files).mapError Fault.file) t := by
  induction files with
  | nil => exact Attempt.yields_pure _ t
  | cons p rest ih =>
    rw [revisions, planned]
    split
    · exact ih
    · have hrevised := yields_revised? s id p t
      cases hread : t.read p with
      | error fault =>
        rw [hread] at hrevised
        exact hrevised.bind_error
      | ok bytes =>
        rw [hread] at hrevised
        refine Attempt.Yields.bind hrevised ?_
        cases hrest : planned s id t rest with
        | error fault =>
          rw [hrest] at ih
          exact ih.bind_error
        | ok more =>
          rw [hrest] at ih
          exact Attempt.Yields.bind ih (Attempt.yields_pure _ t)

theorem exists_planned_iff {s : Settings} {id : Text} {t : Tree} {files : List Path} :
    (∃ plan, planned s id t files = .ok plan) ↔
      ∀ p ∈ files, isOwn s id p = true ∨ ∃ bytes, t.read p = .ok bytes := by
  induction files with
  | nil => simp [planned]
  | cons p rest ih =>
    rw [planned, List.forall_mem_cons, ← ih]
    split
    · next hown => simp [hown]
    · next hown =>
      cases t.read p with
      | error fault => simp [hown]
      | ok bytes => cases planned s id t rest <;> simp [Except.map]

theorem mem_planned {s : Settings} {id : Text} {t : Tree} {files : List Path}
    {plan : List (Path × Text)} (h : planned s id t files = .ok plan) {p : Path} {new : Text} :
    (p, new) ∈ plan ↔
      p ∈ files ∧ isOwn s id p = false ∧
        ∃ bytes, t.read p = .ok bytes ∧ revisionOf id bytes = some new := by
  induction files generalizing plan with
  | nil =>
    obtain rfl := Except.ok.inj h
    simp
  | cons q rest ih =>
    rw [planned] at h
    split at h
    · next hown =>
      rw [ih h, List.mem_cons]
      constructor
      · exact fun hp ↦ ⟨.inr hp.1, hp.2⟩
      · intro hp
        obtain ⟨rfl | hmem, hnot, hp⟩ := hp
        · rw [hown] at hnot
          cases hnot
        · exact ⟨hmem, hnot, hp⟩
    · next hown =>
      split at h
      · cases h
      · next bytes hread =>
        cases hrest : planned s id t rest with
        | error fault =>
          rw [hrest] at h
          cases h
        | ok more =>
          rw [hrest] at h
          obtain rfl := Except.ok.inj h
          rw [List.mem_append, ih hrest, List.mem_cons]
          simp only [Option.mem_toList, Option.map_eq_some_iff, Prod.mk.injEq]
          constructor
          · intro hp
            obtain ⟨text, htext, rfl, rfl⟩ | hp := hp
            · exact ⟨.inl rfl, Bool.eq_false_iff.2 hown, bytes, hread, htext⟩
            · exact ⟨.inr hp.1, hp.2⟩
          · intro hp
            obtain ⟨rfl | hmem, hnot, bytes', hread', htext⟩ := hp
            · obtain rfl := Except.ok.inj (hread.symm.trans hread')
              exact .inl ⟨new, htext, rfl, rfl⟩
            · exact .inr ⟨hmem, hnot, bytes', hread', htext⟩

/-- A file that refers to the component `id` and is not its own: one of the source files leads to
it, and `new` is its text without the references. -/
structure Revision (s : Settings) (id : Text) (files : List Path) (t : Tree) (l : Location)
    (old : Bytes) (new : Text) : Prop where
  scanned : ∃ p ∈ files, isOwn s id p = false ∧ t.locate p = .ok l
  content : t.get? l = some (.file old)
  revised : revisionOf id old = some new

variable {s : Settings} {id : Text} {files : List Path} {t u v : Tree}

theorem Revision.unique {l : Location} {old old' : Bytes} {new new' : Text}
    (h : Revision s id files t l old new) (h' : Revision s id files t l old' new') :
    old' = old ∧ new' = new := by
  have hcontent := h.content.symm.trans h'.content
  obtain rfl : old = old' := by simpa using hcontent
  exact ⟨rfl, Option.some.inj (h'.revised.symm.trans h.revised)⟩

theorem Revision.ne_nil {l : Location} {old : Bytes} {new : Text}
    (h : Revision s id files t l old new) : l ≠ [] := by
  intro hnil
  have hroot := h.content
  rw [hnil] at hroot
  cases hroot

def Partly (s : Settings) (id : Text) (files : List Path) (t u : Tree) : Prop :=
  ∀ l, u.get? l = t.get? l ∨
    ∃ old new, Revision s id files t l old new ∧ u.get? l = some (.file (Utf8.encode new))

theorem Partly.refl (s : Settings) (id : Text) (files : List Path) (t : Tree) :
    Partly s id files t t := fun _ ↦ .inl rfl

theorem Partly.sameKinds (h : Partly s id files t u) : t.SameKinds u := by
  intro l
  obtain he | ⟨old, new, hrev, hu⟩ := h l
  · rw [he]
  · rw [hu, hrev.content]
    rfl

theorem Partly.set {l : Location} {old : Bytes} {new : Text} (h : Partly s id files t u)
    (hrev : Revision s id files t l old new) :
    Partly s id files t (u.set l (.file (Utf8.encode new))) := by
  intro m
  by_cases hm : m = l
  · rw [hm]
    exact .inr ⟨old, new, hrev, Tree.get?_set_self u _ hrev.ne_nil⟩
  · rw [Tree.get?_set_of_ne u _ hm]
    exact h m

/-- `u` is `t` with every file revised that refers to the component. -/
structure Revised (s : Settings) (id : Text) (files : List Path) (t u : Tree) : Prop where
  partly : Partly s id files t u
  wholly : ∀ l old new, Revision s id files t l old new →
    u.get? l = some (.file (Utf8.encode new))

theorem yields_applyRevisions {plan : List (Path × Text)}
    (hplan : ∀ p new, (p, new) ∈ plan →
      ∃ l old, t.locate p = .ok l ∧ Revision s id files t l old new)
    (hu : Partly s id files t u) :
    ∃ v, (applyRevisions s id plan).Yields u (.ok (plan.map fun e ↦ s.relative e.1)) v ∧
      Partly s id files t v ∧
      (∀ l old new, Revision s id files t l old new →
        u.get? l = some (.file (Utf8.encode new)) ∨ (∃ p, (p, new) ∈ plan ∧ t.locate p = .ok l) →
        v.get? l = some (.file (Utf8.encode new))) := by
  induction plan generalizing u with
  | nil =>
    refine ⟨u, Attempt.yields_pure _ u, hu, fun l old new hrev h ↦ ?_⟩
    obtain h | ⟨p, hp, -⟩ := h
    · exact h
    · cases hp
  | cons e plan ih =>
    obtain ⟨p, text⟩ := e
    obtain ⟨l, old, hl, hrev⟩ := hplan p text List.mem_cons_self
    obtain ⟨content, hfile⟩ := hu.sameKinds.exists_file hrev.content
    have hwrite : u.write p (Utf8.encode text) = .ok (u.set l (.file (Utf8.encode text))) := by
      refine Tree.write_eq_ok_iff.2 ⟨l, ?_, ?_, rfl⟩
      · rw [← Tree.locate_sameKinds hu.sameKinds, hl]
      · rw [hfile]
        intro h
        cases h
    obtain ⟨v, hv, hpartly, hkept⟩ :=
      ih (fun q new hq ↦ hplan q new (List.mem_cons_of_mem _ hq)) (hu.set hrev)
    refine ⟨v, ?_, hpartly, fun m old' new hrev' h ↦ hkept m old' new hrev' ?_⟩
    · rw [applyRevisions]
      refine (Attempt.yields_change_ok (by rw [hwrite]; rfl)).bind ?_
      exact (Attempt.yields_note _ _ _ _).bind (hv.bind (Attempt.yields_pure _ v))
    · by_cases hm : m = l
      · subst hm
        obtain ⟨-, rfl⟩ := hrev.unique hrev'
        exact .inl (Tree.get?_set_self u _ hrev.ne_nil)
      · rw [Tree.get?_set_of_ne u _ hm]
        obtain h | ⟨q, hq, hloc⟩ := h
        · exact .inl h
        · obtain heq | hq := List.mem_cons.1 hq
          · obtain ⟨rfl, rfl⟩ := Prod.mk.inj heq
            exact absurd (Except.ok.inj (hloc.symm.trans hl)) hm
          · exact .inr ⟨q, hq, hloc⟩

theorem yields_applyRevisions_of_planned {plan : List (Path × Text)}
    (h : planned s id t files = .ok plan) :
    ∃ u, (applyRevisions s id plan).Yields t (.ok (plan.map fun e ↦ s.relative e.1)) u ∧
      Revised s id files t u := by
  have hplan : ∀ p new, (p, new) ∈ plan →
      ∃ l old, t.locate p = .ok l ∧ Revision s id files t l old new := by
    intro p new hp
    obtain ⟨hmem, hown, bytes, hread, hnew⟩ := (mem_planned h).1 hp
    obtain ⟨l, hl, hcontent⟩ := Tree.read_eq_ok_iff.1 hread
    exact ⟨l, bytes, hl, ⟨p, hmem, hown, hl⟩, hcontent, hnew⟩
  obtain ⟨u, hu, hpartly, hwritten⟩ := yields_applyRevisions hplan (.refl s id files t)
  refine ⟨u, hu, hpartly, fun l old new hrev ↦ hwritten l old new hrev (.inr ?_)⟩
  obtain ⟨p, hmem, hown, hl⟩ := hrev.scanned
  have hread := Tree.read_eq_ok_iff.2 ⟨l, hl, hrev.content⟩
  exact ⟨p, (mem_planned h).2 ⟨hmem, hown, old, hread, hrev.revised⟩, hl⟩

theorem Revised.get?_ne {l : Location} {old : Bytes} {new : Text} (h : Revised s id files t u)
    (hrev : Revision s id files t l old new) : u.get? l ≠ t.get? l := by
  rw [h.wholly l old new hrev, hrev.content]
  intro heq
  cases heq
  exact encode_ne_of_revisionOf hrev.revised rfl

end CanvasLift.Deletion
