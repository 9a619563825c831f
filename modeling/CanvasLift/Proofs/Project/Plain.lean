import CanvasLift.Proofs.Project.Frame
import CanvasLift.Proofs.Project.Generation
import CanvasLift.Proofs.Project.Root

namespace CanvasLift.Deletion

/-- The source directory and the components directory are written from the same start, and without
any way up. -/
structure Plain (s : Settings) : Prop where
  absolute : s.sourceDirectory.isAbsolute = true
  anchor : s.sourceDirectory.anchor = s.componentsDirectory.anchor
  source_up : Path.up ∉ s.sourceDirectory.names
  components_up : Path.up ∉ s.componentsDirectory.names

theorem plain_defaults {root : Path} (habsolute : root.isAbsolute = true)
    (hup : Path.up ∉ root.names) : Plain (Settings.defaults root) := by
  refine ⟨?_, ?_, ?_, ?_⟩
  · rw [Settings.sourceDirectory_defaults]
    exact habsolute
  · rw [Settings.sourceDirectory_defaults, Settings.componentsDirectory_defaults]
  · rw [Settings.sourceDirectory_defaults]
    exact List.not_mem_append hup (by decide)
  · rw [Settings.componentsDirectory_defaults]
    exact List.not_mem_append (List.not_mem_append hup (by decide)) (by decide)

variable {s : Settings} {given : Json} {id : Text} {t : Tree} {names : List Name} {l : Location}
  {old : Bytes}

theorem isOwn_iff {p : Path} : isOwn s id p = true ↔
    p = s.componentFile id ∨
      ∃ below, below ≠ [] ∧ p = (componentDirectory s id).join ⟨.here, below⟩ := by
  rw [isOwn, Bool.or_eq_true_iff, decide_eq_true_iff]
  refine or_congr Iff.rfl ?_
  obtain ⟨anchor, pnames⟩ := p
  rw [Path.below?]
  constructor
  · intro h
    split at h
    · next hbelow =>
      obtain ⟨rfl, below, rfl⟩ := hbelow
      refine ⟨below, ?_, rfl⟩
      rintro rfl
      simp at h
    · cases h
  · rintro ⟨below, hne, heq⟩
    cases heq
    rw [if_pos ⟨rfl, List.prefix_append _ _⟩]
    simpa [Path.join] using hne

theorem isSourceName_of_isAllowed (hid : ∀ c ∈ id, Identifier.isAllowed c = true) :
    isSourceName (.ofText id) = false := by
  have hdot := Identifier.not_mem_of_isAllowed hid (c := '.') (by decide)
  have hendings : ∀ ending ∈ sourceEndings, '.' ∈ ending := by decide
  rw [isSourceName, List.any_eq_false]
  intro ending hending hsuffix
  have hsuffix : WideText.ofText ending <:+ WideText.ofText id := List.isSuffixOf_iff_suffix.1 hsuffix
  exact hdot (WideText.mem_ofText.1 (hsuffix.mem (WideText.mem_ofText.2 (hendings ending hending))))

theorem Plain.up_not_mem_componentDirectory (hs : Plain s) (hid : id ≠ Path.up) :
    Path.up ∉ (componentDirectory s id).names := by
  rw [componentDirectory, Path.child]
  exact List.not_mem_append hs.components_up (by simpa using Ne.symm hid)

theorem Plain.up_not_mem_componentFile (hs : Plain s) (id : Text) :
    Path.up ∉ (s.componentFile id).names := by
  rw [Settings.componentFile, Path.child]
  exact List.not_mem_append hs.components_up (by simpa using Ne.symm (Settings.componentName_ne_up _))

theorem Plain.isListed_of_locate (hs : Plain s) (hne : names ≠ [])
    (hl : t.locate (sourcePath s names) = .ok l) :
    isListed (sourcePath s names).parent = true := by
  have habsolute : (sourcePath s names).parent.isAbsolute = true := hs.absolute
  have hjoin : sourcePath s names =
      (sourcePath s names).parent.join ⟨.here, [names.getLast hne]⟩ := by
    simp [sourcePath, Path.join, Path.parent, Path.isAbsolute, hne, List.dropLast_concat_getLast]
  rw [hjoin] at hl
  obtain ⟨d, hd⟩ := Tree.exists_locate_of_join habsolute hl
  exact decide_eq_true (Tree.length_of_locate hd)

theorem Plain.skips_iff (hs : Plain s) (ht : t.WellFormed)
    (hid : Identifier.require given.text? = .ok id) (hat : SourceAt s t names l old)
    (hl : t.locate (sourcePath s names) = .ok l) : Skips s id names ↔ OwnPlace s id t l := by
  have hfileUp := hs.up_not_mem_componentFile id
  have hdirectoryUp := hs.up_not_mem_componentDirectory (Identifier.ne_up_of_require hid)
  have hnames : l = s.sourceDirectory.names ++ names := by
    have hup := List.not_mem_append hs.source_up (hat.up_not_mem ht)
    simpa using Tree.eq_append_of_follow hup (Tree.follow_of_locate hl)
  have hpath : sourcePath s names = ⟨s.componentsDirectory.anchor, l⟩ := by
    rw [hnames, ← hs.anchor]
    rfl
  rw [Skips, hs.isListed_of_locate hat.ne_nil hl, isOwn_iff, hpath]
  constructor
  · rintro (hlisted | hfile | ⟨below, hbelow, hdirectory⟩)
    · cases hlisted
    · rw [hpath, hfile] at hl
      exact .inl hl
    · have habsolute : (componentDirectory s id).isAbsolute = true := by
        rw [← hs.absolute, Path.isAbsolute, Path.isAbsolute, hs.anchor]
        rfl
      rw [hpath, hdirectory] at hl
      obtain ⟨d, hd⟩ := Tree.exists_locate_of_join habsolute hl
      have hdnames := Tree.eq_append_of_follow hdirectoryUp (Tree.follow_of_locate hd)
      refine .inr ⟨d, hd, ?_⟩
      rw [hdnames, show l = _ ++ below from congrArg Path.names hdirectory]
      exact List.prefix_append _ _
  · rintro (hfile | ⟨d, hd, hpre⟩)
    · have hfnames := Tree.eq_append_of_follow hfileUp (Tree.follow_of_locate hfile)
      refine .inr (.inl ?_)
      rw [hfnames]
      rfl
    · have hdnames := Tree.eq_append_of_follow hdirectoryUp (Tree.follow_of_locate hd)
      obtain ⟨below, rfl⟩ := hpre
      refine .inr (.inr ⟨below, ?_, ?_⟩)
      · -- The directory itself is not named like a source file.
        rintro rfl
        obtain ⟨above, last, rfl⟩ := List.eq_nil_or_concat names |>.resolve_left hat.ne_nil
        have hending := hat.ending
        rw [hdnames, componentDirectory, Path.child, List.append_nil, List.nil_append,
          List.concat_eq_append, ← List.append_assoc] at hnames
        obtain rfl := (List.append_singleton_inj.1 hnames).2
        simp [isSourceName_of_isAllowed (Identifier.isAllowed_of_require hid)] at hending
      · rw [hdnames]
        rfl

theorem frame_of_plain (hs : Plain s) {records : List Log.Record} (ht : t.WellFormed)
    {deleted : Bool} {updatedFiles : List WideText}
    (hlocated : ∀ names l old, SourceAt s t names l old → t.locate (sourcePath s names) = .ok l)
    (hdone : ((run s given).run ⟨t, records, none⟩).1 = .done deleted updatedFiles) :
    ∃ id, Identifier.require given.text? = .ok id ∧
      Frame s id (fun _ l ↦ OwnPlace s id t l) t ((run s given).run ⟨t, records, none⟩).2.tree
        deleted updatedFiles := by
  obtain ⟨id, hid, hframe⟩ := frame_skips ht hdone
  refine ⟨id, hid, hframe.congr fun names l old hat _ ↦ ?_⟩
  exact hs.skips_iff ht hid hat (hlocated names l old hat)

end CanvasLift.Deletion
