import CanvasLift.Project.Generation
import CanvasLift.Proofs.Files.Growth
import CanvasLift.Proofs.Identifier
import CanvasLift.Proofs.Project.Workspace

namespace CanvasLift

namespace Extraction

theorem yields_record (id : Text) (r : Except Fault Extraction) (t : Tree) :
    (record id r).Yields t () t := by
  rw [record.eq_def]
  split
  · exact (Work.yields_note _ _ _ t).bind (Work.yields_note _ _ _ t)
  · exact Work.yields_note _ _ _ t
  · exact Work.yields_note _ _ _ t
  · exact Work.yields_pure () t

theorem yields_run (host : Host) (id : Text) (document : Path) (t : Tree) :
    (run host id document).Yields t ((ofTree t id (host.absolute document)).map (·.source)) t := by
  apply Work.Yields.get_bind
  intro w hw
  rw [hw]
  exact (yields_record id _ t).bind (Work.yields_pure _ t)

theorem yields_request {given : Option Text} {id : Text} (host : Host) (document : Path) (t : Tree)
    (h : Identifier.require given = .ok id) :
    (request host given document).Yields t
      ((ofTree t id (host.absolute document)).map (·.source)) t := by
  rw [request, h]
  exact yields_run host id document t

end Extraction

namespace Generation

/-- What is written for a type: what the canvas gives for it, and else what its template gives. -/
def sourceOf (id : Text) : Except Extraction.Fault Text → Text × Origin
  | .ok source => (source, .extracted)
  | .error _ => (Component.Template.fallback id, .template)

def written (p : Path) (source : Text) (t : Tree) : Except Fault Unit × Tree :=
  match t.makeDirectories p.parent with
  | (.error fault, made) => (.error (writeFault p fault), made)
  | (.ok (), made) =>
    match made.write p (Utf8.encode source) with
    | .ok u => (.ok (), u)
    | .error fault => (.error (writeFault p fault), made)

def outcome (host : Host) (s : Settings) (id : Text) (t : Tree) : Except Fault Origin × Tree :=
  let extracted := (Extraction.ofTree t id (host.absolute s.sourceDocument)).map (·.source)
  let (r, u) := written (s.componentFile id) (sourceOf id extracted).1 t
  (r.map fun () ↦ (sourceOf id extracted).2, u)

theorem yields_buildSource (host : Host) (s : Settings) (id : Text) (t : Tree) :
    (buildSource host s id).Yields t
      (sourceOf id ((Extraction.ofTree t id (host.absolute s.sourceDocument)).map (·.source))) t := by
  rw [buildSource]
  refine (Extraction.yields_run host id s.sourceDocument t).bind ?_
  cases Extraction.ofTree t id (host.absolute s.sourceDocument) with
  | ok e => exact Work.yields_pure _ t
  | error fault =>
    exact (Work.yields_note _ _ _ t).bind ((Work.yields_note _ _ _ t).bind (Work.yields_pure _ t))

theorem yields_write (p : Path) (source : Text) (t : Tree) :
    (write p source).Yields t (written p source t).1 (written p source t).2 := by
  apply Attempt.Yields.get_bind
  intro w hw
  rw [hw, written]
  obtain ⟨made, u⟩ := t.makeDirectories p.parent
  refine (Attempt.yields_withTree t u).bind ?_
  cases made with
  | error fault => exact Attempt.yields_throw _ u
  | ok =>
    dsimp only
    cases hwrite : u.write p (Utf8.encode source) with
    | ok v => exact Attempt.yields_change_ok (by rw [hwrite])
    | error fault => exact Attempt.yields_change_error (by rw [hwrite])

theorem yields_attempt {given : Option Text} {id : Text} (host : Host) (s : Settings) (t : Tree)
    (h : Identifier.require given = .ok id) :
    (attempt host s given).Yields t ((outcome host s id t).1.map fun origin ↦ (id, origin))
      (outcome host s id t).2 := by
  rw [attempt, h]
  refine (Attempt.yields_lift (yields_buildSource host s id t)).bind ?_
  have hwrite := yields_write (s.componentFile id)
    (sourceOf id ((Extraction.ofTree t id (host.absolute s.sourceDocument)).map (·.source))).1 t
  rw [outcome]
  generalize written _ _ t = r at hwrite ⊢
  obtain ⟨r, u⟩ := r
  cases r with
  | ok => exact hwrite.bind (Attempt.yields_pure _ u)
  | error fault => exact hwrite.bind_error

theorem yields_run_of_ok {given : Json} {id : Text} (host : Host) (s : Settings) (t : Tree)
    (h : Identifier.require given.text? = .ok id) :
    (run host s given).Yields t
      (match (outcome host s id t).1 with
        | .ok origin => manifest s id origin
        | .error fault => .failure fault.message)
      (outcome host s id t).2 := by
  rw [run]
  have hattempt := yields_attempt host s t h
  generalize outcome host s id t = r at hattempt ⊢
  obtain ⟨r, u⟩ := r
  refine Work.Yields.bind hattempt ?_
  cases r with
  | ok origin => exact (Work.yields_note _ _ _ u).bind (Work.yields_pure _ u)
  | error fault =>
    dsimp only [Except.map]
    split
    · exact (Work.yields_note _ _ _ u).bind (Work.yields_pure _ u)
    · exact (Work.yields_note _ _ _ u).bind (Work.yields_pure _ u)

theorem yields_run_of_error {given : Json} {fault : Identifier.Fault} (host : Host) (s : Settings)
    (t : Tree) (h : Identifier.require given.text? = .error fault) :
    (run host s given).Yields t (.failure fault.message) t := by
  have hattempt : (attempt host s given.text?).Yields t (.error (.identifier fault)) t := by
    rw [attempt, h]
    exact Attempt.yields_throw _ t
  exact Work.Yields.bind hattempt ((Work.yields_note _ _ _ t).bind (Work.yields_pure _ t))

/-- `u` is `t` with the source of the component `id` in its file, which lies directly in the
components directory, at `d`. -/
structure Placed (s : Settings) (id source : Text) (t u : Tree) (d : Location) : Prop where
  directory : u.locate s.componentsDirectory = .ok d
  isDirectory : u.get? d = some .directory
  file : u.locate (s.componentFile id) = .ok (d ++ [WideText.ofText (id ++ Settings.componentEnding)])
  content : u.get? (d ++ [WideText.ofText (id ++ Settings.componentEnding)]) =
    some (.file (Utf8.encode source))
  others : ∀ l, l ≠ d ++ [WideText.ofText (id ++ Settings.componentEnding)] →
    u.get? l = t.get? l ∨ Tree.NewDirectory s.componentsDirectory t u l

theorem directoriesIn_set {t : Tree} {l : Location} {e : Entry} (h : t.get? l ≠ some .directory) :
    Tree.DirectoriesIn t (t.set l e) := by
  intro m hm
  rw [Tree.get?_set_of_ne t e, hm]
  intro heq
  exact h (heq ▸ hm)

theorem parent_componentFile (s : Settings) (id : Text) :
    (s.componentFile id).parent = s.componentsDirectory := by
  simp [Settings.componentFile, Path.child, Path.parent]

theorem directoriesIn_written (p : Path) (source : Text) (t : Tree) :
    Tree.DirectoriesIn t (written p source t).2 := by
  have hgrown := (t.grown_makeDirectories p.parent).directoriesIn
  rw [written]
  generalize t.makeDirectories p.parent = r at hgrown ⊢
  obtain ⟨made, u⟩ := r
  cases made with
  | error fault => exact hgrown
  | ok =>
    dsimp only at hgrown ⊢
    cases hwrite : u.write p (Utf8.encode source) with
    | error fault => exact hgrown
    | ok v =>
      obtain ⟨l, -, hfree, rfl⟩ := Tree.write_eq_ok_iff.1 hwrite
      exact fun m hm ↦ directoriesIn_set hfree m (hgrown m hm)

theorem directoriesIn_run (host : Host) (s : Settings) (given : Json) (t : Tree)
    (records : List Log.Record) :
    Tree.DirectoriesIn t ((run host s given).run ⟨t, records, none⟩).2.tree := by
  cases hid : Identifier.require given.text? with
  | error fault =>
    rw [(yields_run_of_error host s t hid).tree]
    exact fun _ h ↦ h
  | ok id =>
    rw [(yields_run_of_ok host s t hid).tree]
    exact directoriesIn_written _ _ t

theorem written_cases (s : Settings) (id source : Text) (t : Tree) :
    (∃ fault, (written (s.componentFile id) source t).1 = .error fault ∧
      Tree.Grown s.componentsDirectory t (written (s.componentFile id) source t).2) ∨
    ((written (s.componentFile id) source t).1 = .ok () ∧
      ∃ d, Placed s id source t (written (s.componentFile id) source t).2 d) := by
  have hgrown := t.grown_makeDirectories s.componentsDirectory
  have hmade := Tree.hasDirectory_makeDirectories (t := t) (p := s.componentsDirectory)
  rw [written, parent_componentFile]
  generalize t.makeDirectories s.componentsDirectory = r at hgrown hmade ⊢
  obtain ⟨r, u⟩ := r
  cases r with
  | error fault => exact .inl ⟨_, rfl, hgrown⟩
  | ok =>
    dsimp only at hgrown hmade ⊢
    cases hwrite : u.write (s.componentFile id) (Utf8.encode source) with
    | error fault => exact .inl ⟨_, rfl, hgrown⟩
    | ok v =>
      obtain ⟨d, hd, hdir⟩ := hmade rfl
      obtain ⟨l, hl, hfree, rfl⟩ := Tree.write_eq_ok_iff.1 hwrite
      obtain ⟨rfl, -⟩ := Tree.locate_child (Settings.componentName_ne_up _) hd hl
      have hin := directoriesIn_set (e := .file (Utf8.encode source)) hfree
      refine .inr ⟨rfl, d, Tree.locate_ok_of_directoriesIn hin hd, hin d hdir,
        Tree.locate_ok_of_directoriesIn hin hl, Tree.get?_set_self _ _ (by simp), fun m hm ↦ ?_⟩
      have hsame := Tree.get?_set_of_ne u (.file (Utf8.encode source)) hm
      obtain he | hnew := hgrown m
      · exact .inl (hsame.trans he)
      · obtain ⟨names, hpre, hloc⟩ := hnew.onWay
        exact .inr ⟨hnew.absent, hsame.trans hnew.present, names, hpre,
          Tree.locate_ok_of_directoriesIn hin hloc⟩

theorem outcome_cases (host : Host) (s : Settings) (id : Text) (t : Tree)
    {e : Except Extraction.Fault Text}
    (he : (Extraction.ofTree t id (host.absolute s.sourceDocument)).map (·.source) = e) :
    (∃ fault, (outcome host s id t).1 = .error fault ∧
      Tree.Grown s.componentsDirectory t (outcome host s id t).2) ∨
    ((outcome host s id t).1 = .ok (sourceOf id e).2 ∧
      ∃ d, Placed s id (sourceOf id e).1 t (outcome host s id t).2 d) := by
  have hcases := written_cases s id (sourceOf id e).1 t
  rw [outcome, he]
  generalize written (s.componentFile id) (sourceOf id e).1 t = w at hcases ⊢
  obtain ⟨r, v⟩ := w
  dsimp only at hcases ⊢
  obtain ⟨fault, rfl, hgrown⟩ | ⟨rfl, d, hplaced⟩ := hcases
  · exact .inl ⟨fault, rfl, hgrown⟩
  · exact .inr ⟨rfl, d, hplaced⟩

def sourceFor (host : Host) (s : Settings) (id : Text) (t : Tree) : Text × Origin :=
  sourceOf id ((Extraction.ofTree t id (host.absolute s.sourceDocument)).map (·.source))

theorem outcome_cases_of_isDirectory (host : Host) {s : Settings} (id : Text) {t : Tree}
    (hdir : t.isDirectory s.componentsDirectory = .ok true) :
    (∃ fault, t.write (s.componentFile id) (Utf8.encode (sourceFor host s id t).1) = .error fault ∧
      outcome host s id t = (.error (writeFault (s.componentFile id) fault), t)) ∨
    ∃ u, t.write (s.componentFile id) (Utf8.encode (sourceFor host s id t).1) = .ok u ∧
      outcome host s id t = (.ok (sourceFor host s id t).2, u) := by
  rw [outcome, written, parent_componentFile, Tree.makeDirectories_of_isDirectory hdir]
  dsimp only
  cases hwrite : t.write (s.componentFile id) (Utf8.encode (sourceFor host s id t).1) with
  | error fault =>
    rw [sourceFor] at hwrite
    rw [hwrite]
    exact .inl ⟨fault, rfl, rfl⟩
  | ok u =>
    rw [sourceFor] at hwrite
    rw [hwrite]
    exact .inr ⟨u, rfl, rfl⟩

theorem exists_write_of_success {host : Host} {s : Settings} {given : Json} {id : Text} {t : Tree}
    {records : List Log.Record} (hid : Identifier.require given.text? = .ok id)
    (hdir : t.isDirectory s.componentsDirectory = .ok true)
    (hsuccess : ((run host s given).run ⟨t, records, none⟩).1.success = true) :
    ∃ u more, t.write (s.componentFile id) (Utf8.encode (sourceFor host s id t).1) = .ok u ∧
      ((run host s given).run ⟨t, records, none⟩).2 = ⟨u, records ++ more, none⟩ := by
  have hrun := yields_run_of_ok host s t hid
  rw [hrun.value] at hsuccess
  obtain ⟨more, hmore⟩ := hrun records
  obtain ⟨fault, -, houtcome⟩ | ⟨u, hwrite, houtcome⟩ := outcome_cases_of_isDirectory host id hdir
  · rw [houtcome] at hsuccess
    cases hsuccess
  · rw [houtcome] at hmore
    exact ⟨u, more, hwrite, congrArg Prod.snd hmore⟩

/-- A generation fails and changes no file, or it writes the file of the component that was asked
for, and no other. -/
theorem run_fails_or_places (host : Host) (s : Settings) (given : Json) (t : Tree)
    (records : List Log.Record) :
    let before : Workspace := ⟨t, records, none⟩
    let extracted := ((Extraction.request host given.text? s.sourceDocument).run before).1
    let m := ((run host s given).run before).1
    let u := ((run host s given).run before).2.tree
    (m.success = false ∧ Tree.Grown s.componentsDirectory t u) ∨
    ∃ raw id d, given.text? = some raw ∧ id = raw.filter Identifier.isAllowed ∧ id ≠ [] ∧
      Placed s id (sourceOf id extracted).1 t u d ∧
      m = manifest s id (sourceOf id extracted).2 ∧ m.success = true ∧
      m.files = [(s.componentFile id).toText] := by
  intro before extracted m u
  cases hreq : Identifier.require given.text? with
  | error fault =>
    have hrun := yields_run_of_error host s t hreq
    have hm : m = .failure fault.message := hrun.value records
    have hu : u = t := hrun.tree records
    rw [hm, hu]
    exact .inl ⟨rfl, .refl _ t⟩
  | ok id =>
    obtain ⟨raw, hraw, hid, hne⟩ := Identifier.require_eq_ok_iff.1 hreq
    have hrun := yields_run_of_ok host s t hreq
    have hm : m = _ := hrun.value records
    have hu : u = _ := hrun.tree records
    have hex : extracted = _ :=
      (Extraction.yields_request host s.sourceDocument t hreq).value records
    obtain ⟨fault, hr, hgrown⟩ | ⟨hr, d, hplaced⟩ := outcome_cases host s id t rfl
    · rw [hm, hu, hr]
      exact .inl ⟨rfl, hgrown⟩
    · rw [hm, hu, hex, hr]
      exact .inr ⟨raw, id, d, hraw, hid, hne, hplaced, rfl, rfl, rfl⟩

theorem exists_placed_of_success {given : Json} {id : Text} (host : Host) (s : Settings)
    (t : Tree) (records : List Log.Record) (hid : Identifier.require given.text? = .ok id)
    (hsuccess : ((run host s given).run ⟨t, records, none⟩).1.success = true) :
    ((run host s given).run ⟨t, records, none⟩).1.origin =
        some (.ofText (sourceFor host s id t).2.name) ∧
      ∃ d, Placed s id (sourceFor host s id t).1 t
        ((run host s given).run ⟨t, records, none⟩).2.tree d := by
  obtain ⟨raw, -, -, hne⟩ := Identifier.require_eq_ok_iff.1 hid
  have hrun := yields_run_of_ok host s t hid
  rw [hrun.value] at hsuccess ⊢
  rw [hrun.tree]
  obtain ⟨fault, hr, -⟩ | ⟨hr, hplaced⟩ := outcome_cases host s id t rfl
  · rw [hr] at hsuccess
    cases hsuccess
  · rw [hr]
    exact ⟨rfl, hplaced⟩

theorem Origin.ofText_name_ne :
    WideText.ofText Origin.extracted.name ≠ WideText.ofText Origin.template.name := by
  decide

theorem exists_placed_of_template {given : Json} {id : Text} (host : Host) (s : Settings)
    (t : Tree) (records : List Log.Record) (hid : Identifier.require given.text? = .ok id)
    (hsuccess : ((run host s given).run ⟨t, records, none⟩).1.success = true)
    (horigin : ((run host s given).run ⟨t, records, none⟩).1.origin =
      some (.ofText Origin.template.name)) :
    ∃ d, Placed s id (Component.Template.fallback id) t
      ((run host s given).run ⟨t, records, none⟩).2.tree d := by
  obtain ⟨hsame, hplaced⟩ := exists_placed_of_success host s t records hid hsuccess
  rw [hsame] at horigin
  rw [sourceFor] at horigin hplaced
  cases hextracted : Extraction.ofTree t id (host.absolute s.sourceDocument) with
  | ok e =>
    rw [hextracted] at horigin
    exact absurd (Option.some.inj horigin) Origin.ofText_name_ne
  | error fault =>
    rw [hextracted] at hplaced
    exact hplaced

theorem exists_placed_of_extracted {given : Json} {id : Text} (host : Host) (s : Settings)
    (t : Tree) (records : List Log.Record) (hid : Identifier.require given.text? = .ok id)
    (hsuccess : ((run host s given).run ⟨t, records, none⟩).1.success = true)
    (horigin : ((run host s given).run ⟨t, records, none⟩).1.origin =
      some (.ofText Origin.extracted.name)) :
    ∃ e, Extraction.ofTree t id (host.absolute s.sourceDocument) = .ok e ∧
      ∃ d, Placed s id e.source t ((run host s given).run ⟨t, records, none⟩).2.tree d := by
  obtain ⟨hsame, hplaced⟩ := exists_placed_of_success host s t records hid hsuccess
  rw [hsame] at horigin
  rw [sourceFor] at horigin hplaced
  cases hextracted : Extraction.ofTree t id (host.absolute s.sourceDocument) with
  | ok e =>
    rw [hextracted] at hplaced
    exact ⟨e, rfl, hplaced⟩
  | error fault =>
    rw [hextracted] at horigin
    exact absurd (Option.some.inj horigin).symm Origin.ofText_name_ne

end Generation

end CanvasLift
