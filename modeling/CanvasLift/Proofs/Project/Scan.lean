import CanvasLift.Proofs.Files.WellFormed
import CanvasLift.Proofs.Project.Revision

/-!
The source files of a project. The main statements are that the walk comes to every source file
below the source directory whose directory can be listed, and to each once, and that the files to be
revised are found among them in the order of the walk.
-/

namespace CanvasLift.Deletion

variable {s : Settings} {id : Text} {t u : Tree} {names : List Name} {l : Location}
  {content : Bytes} {files : List Path}

/-- `names` lead from the source directory to the source file at `l`, through no directory that a
search leaves out. -/
structure SourceAt (s : Settings) (t : Tree) (names : List Name) (l : Location)
    (content : Bytes) : Prop where
  below : ∃ top, t.locate s.sourceDirectory = .ok top ∧ l = top ++ names
  content : t.get? l = some (.file content)
  ending : isSourceName (names.getLastD []) = true
  searched : ∀ name ∈ names.dropLast, isSearched name = true

theorem SourceAt.ne_nil (h : SourceAt s t names l content) : names ≠ [] := by
  rintro rfl
  cases h.ending

theorem SourceAt.unique {l' : Location} {content' : Bytes} (h : SourceAt s t names l content)
    (h' : SourceAt s t names l' content') : l' = l ∧ content' = content := by
  obtain ⟨top, htop, rfl⟩ := h.below
  obtain ⟨top', htop', rfl⟩ := h'.below
  obtain rfl := Except.ok.inj (htop.symm.trans htop')
  have hcontent := h.content.symm.trans h'.content
  cases hcontent
  exact ⟨rfl, rfl⟩

theorem SourceAt.names_unique {names' : List Name} {content' : Bytes}
    (h : SourceAt s t names l content) (h' : SourceAt s t names' l content') : names' = names := by
  obtain ⟨top, htop, rfl⟩ := h.below
  obtain ⟨top', htop', hl⟩ := h'.below
  obtain rfl := Except.ok.inj (htop.symm.trans htop')
  exact (List.append_cancel_left hl).symm

theorem SourceAt.up_not_mem (ht : t.WellFormed) (h : SourceAt s t names l content) :
    Path.up ∉ names := by
  obtain ⟨top, -, rfl⟩ := h.below
  exact fun hup ↦ ht.up_not_mem h.content (List.mem_append_right top hup)

theorem SourceAt.eq_of_locate (ht : t.WellFormed) (h : SourceAt s t names l content)
    {m : Location} (hm : t.locate (sourcePath s names) = .ok m) : m = l := by
  have hup := h.up_not_mem ht
  obtain ⟨top, htop, rfl⟩ := h.below
  exact Tree.eq_append_of_locate htop hup hm

theorem SourceAt.eq_of_read (ht : t.WellFormed) (h : SourceAt s t names l content)
    {bytes : Bytes} (hread : t.read (sourcePath s names) = .ok bytes) :
    t.locate (sourcePath s names) = .ok l ∧ bytes = content := by
  obtain ⟨m, hm, hbytes⟩ := Tree.read_eq_ok_iff.1 hread
  obtain rfl := h.eq_of_locate ht hm
  have hcontent := hbytes.symm.trans h.content
  cases hcontent
  exact ⟨hm, rfl⟩

/-- The source files in the order of the walk: each of them once, but for those in a directory that
cannot be listed. -/
structure Found (s : Settings) (t : Tree) (found : List (List Name)) : Prop where
  ordered : found.Pairwise Tree.Precedes
  nodup : found.Nodup
  mem_iff : ∀ names, names ∈ found ↔
    (∃ l content, SourceAt s t names l content) ∧ isListed (sourcePath s names).parent = true

theorem exists_found (ht : t.WellFormed) (h : sourceFiles s t = .ok files) :
    ∃ found, Found s t found ∧ files = found.map (sourcePath s) := by
  rw [sourceFiles] at h
  cases hdir : t.isDirectory s.sourceDirectory with
  | error fault =>
    rw [hdir] at h
    cases h
  | ok b =>
    rw [hdir] at h
    cases b with
    | false =>
      obtain rfl := Except.ok.inj h
      refine ⟨[], ⟨.nil, List.nodup_nil, fun names ↦ ?_⟩, rfl⟩
      refine ⟨fun hmem ↦ absurd hmem List.not_mem_nil, ?_⟩
      rintro ⟨⟨l, content, hat⟩, -⟩
      obtain ⟨top, htop, rfl⟩ := hat.below
      have hnone : t.get? top ≠ some .directory := by
        intro htopDir
        rw [Tree.isDirectory_eq_true_iff.2 ⟨top, htop, htopDir⟩] at hdir
        cases hdir
      have habsent := ht.get?_below hnone hat.ne_nil
      rw [hat.content] at habsent
      cases habsent
    | true =>
      obtain ⟨top, htop, -⟩ := Tree.isDirectory_eq_true_iff.1 hdir
      rw [htop] at h
      obtain rfl := Except.ok.inj h
      refine ⟨_, ⟨(t.pairwise_precedes_walk top isSearched).filter _,
        (t.nodup_walk top isSearched).filter _, fun names ↦ ?_⟩, rfl⟩
      rw [List.mem_filter, Tree.mem_walk_iff, Bool.and_eq_true_iff]
      constructor
      · rintro ⟨⟨-, ⟨content, hcontent⟩, hsearched⟩, hending, hlisted⟩
        exact ⟨⟨_, content, ⟨top, htop, rfl⟩, hcontent, hending, hsearched⟩, hlisted⟩
      · rintro ⟨⟨l, content, hat⟩, hlisted⟩
        obtain ⟨top', htop', rfl⟩ := hat.below
        obtain rfl := Except.ok.inj (htop.symm.trans htop')
        exact ⟨⟨hat.ne_nil, ⟨content, hat.content⟩, hat.searched⟩, hat.ending, hlisted⟩

/-- What keeps a source file from being revised: its directory cannot be listed, or its path, as it
is written, is one of the component's own. -/
def Skips (s : Settings) (id : Text) (names : List Name) : Prop :=
  isListed (sourcePath s names).parent = false ∨ isOwn s id (sourcePath s names) = true

instance (s : Settings) (id : Text) (names : List Name) : Decidable (Skips s id names) :=
  inferInstanceAs (Decidable (_ ∨ _))

theorem SourceAt.located (ht : t.WellFormed) {found : List (List Name)} (hfound : Found s t found)
    {plan : List (Path × Text)} (hplan : planned s id t (found.map (sourcePath s)) = .ok plan)
    (h : SourceAt s t names l content) (hskips : ¬ Skips s id names) :
    t.locate (sourcePath s names) = .ok l ∧ sourcePath s names ∈ found.map (sourcePath s) ∧
      isOwn s id (sourcePath s names) = false := by
  obtain ⟨hlisted, hown⟩ := not_or.1 hskips
  have hmem := (hfound.mem_iff names).2 ⟨⟨l, content, h⟩, by simpa using hlisted⟩
  have hpath := List.mem_map_of_mem (f := sourcePath s) hmem
  obtain hown' | ⟨bytes, hread⟩ := exists_planned_iff.1 ⟨plan, hplan⟩ _ hpath
  · exact absurd hown' hown
  · exact ⟨(h.eq_of_read ht hread).1, hpath, Bool.eq_false_iff.2 hown⟩

theorem revision_iff (ht : t.WellFormed) {found : List (List Name)} (hfound : Found s t found)
    {plan : List (Path × Text)} (hplan : planned s id t (found.map (sourcePath s)) = .ok plan)
    {old : Bytes} {new : Text} :
    Revision s id (found.map (sourcePath s)) t l old new ↔
      revisionOf id old = some new ∧ ∃ names, SourceAt s t names l old ∧ ¬ Skips s id names := by
  constructor
  · intro h
    obtain ⟨p, hp, hown, hl⟩ := h.scanned
    obtain ⟨names, hmem, rfl⟩ := List.mem_map.1 hp
    obtain ⟨⟨l', content, hat⟩, hlisted⟩ := (hfound.mem_iff names).1 hmem
    obtain rfl := hat.eq_of_locate ht hl
    have hcontent := hat.content.symm.trans h.content
    cases hcontent
    refine ⟨h.revised, names, hat, ?_⟩
    rintro (hnot | hown')
    · rw [hlisted] at hnot
      cases hnot
    · rw [hown] at hown'
      cases hown'
  · rintro ⟨hrevised, names, hat, hskips⟩
    obtain ⟨hl, hpath, hown⟩ := hat.located ht hfound hplan hskips
    exact ⟨⟨_, hpath, hown, hl⟩, hat.content, hrevised⟩

def refers (s : Settings) (id : Text) (t : Tree) (p : Path) : Bool :=
  !isOwn s id p && ((t.read p).toOption.bind (revisionOf id)).isSome

theorem refers_iff {p : Path} : refers s id t p = true ↔
    isOwn s id p = false ∧ ∃ bytes, t.read p = .ok bytes ∧ revisionOf id bytes ≠ none := by
  rw [refers, Bool.and_eq_true_iff, Bool.not_eq_true']
  cases t.read p <;> simp [Except.toOption, Option.isSome_iff_ne_none]

theorem map_fst_planned {plan : List (Path × Text)} (h : planned s id t files = .ok plan) :
    plan.map Prod.fst = files.filter (refers s id t) := by
  induction files generalizing plan with
  | nil =>
    obtain rfl := Except.ok.inj h
    rfl
  | cons p rest ih =>
    rw [planned] at h
    split at h
    · next hown =>
      have hrefers : ¬ refers s id t p = true := by simp [refers, hown]
      rw [List.filter_cons_of_neg hrefers]
      exact ih h
    · next hown =>
      split at h
      · cases h
      · next bytes hread =>
        cases hrest : planned s id t rest with
        | error fault =>
          rw [hrest] at h
          cases h
        | ok more =>
          rw [hrest] at h
          obtain rfl := Except.ok.inj h
          rw [List.filter_cons, List.map_append, ih hrest]
          have hrefers : refers s id t p = (revisionOf id bytes).isSome := by
            simp [refers, hown, hread, Except.toOption]
          rw [hrefers]
          cases revisionOf id bytes <;> rfl

theorem exists_updated (ht : t.WellFormed) {found : List (List Name)} (hfound : Found s t found)
    {plan : List (Path × Text)} (hplan : planned s id t (found.map (sourcePath s)) = .ok plan) :
    ∃ updated : List (List Name), plan.map Prod.fst = updated.map (sourcePath s) ∧
      updated.Pairwise Tree.Precedes ∧ updated.Nodup ∧
      ∀ names, names ∈ updated ↔ ∃ l content, SourceAt s t names l content ∧
        ¬ Skips s id names ∧ revisionOf id content ≠ none := by
  refine ⟨found.filter fun names ↦ refers s id t (sourcePath s names), ?_,
    hfound.ordered.filter _, hfound.nodup.filter _, fun names ↦ ?_⟩
  · rw [map_fst_planned hplan, List.filter_map]
    rfl
  · rw [List.mem_filter, hfound.mem_iff, refers_iff]
    constructor
    · rintro ⟨⟨⟨l, content, hat⟩, hlisted⟩, hown, bytes, hread, hrevised⟩
      obtain ⟨-, rfl⟩ := hat.eq_of_read ht hread
      refine ⟨l, bytes, hat, ?_, hrevised⟩
      simp [Skips, hlisted, hown]
    · rintro ⟨l, content, hat, hskips, hrevised⟩
      obtain ⟨hl, -, hown⟩ := hat.located ht hfound hplan hskips
      refine ⟨⟨⟨l, content, hat⟩, ?_⟩, hown, content, Tree.read_eq_ok_iff.2 ⟨l, hl, hat.content⟩,
        hrevised⟩
      simpa using (not_or.1 hskips).1

end CanvasLift.Deletion
