import CanvasLift.Proofs.Project.Extraction
import CanvasLift.Proofs.Project.Generation
import Mathlib.Control.Monad.Basic

namespace CanvasLift.Generation

def runAll (host : Host) (s : Settings) (requests : List Json) : Work (List Manifest) :=
  requests.mapM (run host s)

def alone (host : Host) (s : Settings) (t : Tree) (given : Json) : Manifest :=
  ((run host s given).run ⟨t, [], none⟩).1

def Requested (requests : List Json) (id : Text) : Prop :=
  ∃ given ∈ requests, Identifier.require given.text? = .ok id

/-- The component `id` can be written to `l`. -/
structure Target (s : Settings) (t : Tree) (id : Text) (l : Location) : Prop where
  located : t.locate (s.componentFile id) = .ok l
  free : t.get? l ≠ some .directory

/-- The components directory is there, and no request leads to the place of the document. -/
structure Apart (host : Host) (s : Settings) (t : Tree) (requests : List Json) : Prop where
  directory : t.isDirectory s.componentsDirectory = .ok true
  document : ∀ id l, Requested requests id → t.locate (s.componentFile id) = .ok l →
    t.locate (host.absolute s.sourceDocument) ≠ .ok l

/-- `u` is `t` with the file of every component that was asked for, each as it would have been
written to `t` itself. -/
structure Generated (host : Host) (s : Settings) (t : Tree) (requests : List Json) (u : Tree) :
    Prop where
  written : ∀ id l, Requested requests id → Target s t id l →
    u.get? l = some (.file (Utf8.encode (sourceFor host s id t).1))
  others : ∀ l, (∀ id, Requested requests id → ¬ Target s t id l) → u.get? l = t.get? l

variable {host : Host} {s : Settings} {t u v : Tree} {requests requests' : List Json} {given : Json}
  {id id' : Text} {l : Location}

theorem requested_append :
    Requested (requests ++ requests') id ↔ Requested requests id ∨ Requested requests' id := by
  simp only [Requested, List.mem_append, or_and_right, exists_or]

theorem requested_singleton :
    Requested [given] id ↔ Identifier.require given.text? = .ok id := by
  simp [Requested]

theorem Target.ne_nil (h : Target s t id l) : l ≠ [] := by
  rintro rfl
  exact h.free rfl

theorem Apart.of_append (h : Apart host s t (requests ++ requests')) : Apart host s t requests :=
  ⟨h.directory, fun id l hid ↦ h.document id l (requested_append.2 (.inl hid))⟩

theorem Apart.target_unique (h : Apart host s t requests) (hl : Target s t id l)
    (hl' : Target s t id' l) : id' = id := by
  obtain ⟨d, hd, -⟩ := Tree.isDirectory_eq_true_iff.1 h.directory
  obtain ⟨rfl, -⟩ := Tree.locate_child (Settings.componentName_ne_up _) hd hl.located
  obtain ⟨heq, -⟩ := Tree.locate_child (Settings.componentName_ne_up _) hd hl'.located
  have hname := WideText.ofText_injective (List.singleton_inj.1 (List.append_cancel_left heq))
  exact (List.append_cancel_right hname).symm

theorem Generated.refl (host : Host) (s : Settings) (t : Tree) : Generated host s t [] t where
  written := fun _ _ h ↦ by simp [Requested] at h
  others := fun _ _ ↦ rfl

theorem Generated.get?_eq (h : Generated host s t requests u) (h' : Generated host s t requests' v)
    (hsame : ∀ id, Requested requests id ↔ Requested requests' id) (l : Location) :
    u.get? l = v.get? l := by
  by_cases hl : ∃ id, Requested requests id ∧ Target s t id l
  · obtain ⟨id, hid, htarget⟩ := hl
    rw [h.written id l hid htarget, h'.written id l ((hsame id).1 hid) htarget]
  · rw [h.others l fun id hid htarget ↦ hl ⟨id, hid, htarget⟩,
      h'.others l fun id hid htarget ↦ hl ⟨id, (hsame id).2 hid, htarget⟩]

theorem Generated.sameDirectories (h : Generated host s t requests u) : t.SameDirectories u := by
  constructor
  · intro l hl
    rw [h.others l fun id _ htarget ↦ htarget.free hl, hl]
  · intro l hl
    by_cases htarget : ∃ id, Requested requests id ∧ Target s t id l
    · obtain ⟨id, hid, htarget⟩ := htarget
      rw [h.written id l hid htarget] at hl
      cases hl
    · rwa [h.others l fun id hid hl ↦ htarget ⟨id, hid, hl⟩] at hl

/-- The document is read as it was, so the generations do not change what is written later. -/
theorem Generated.sourceFor_eq (h : Generated host s t requests u) (hapart : Apart host s t requests)
    (id : Text) : sourceFor host s id u = sourceFor host s id t := by
  have hsame : ∀ l, t.locate (host.absolute s.sourceDocument) = .ok l → u.get? l = t.get? l :=
    fun l hl ↦ h.others l fun id hid htarget ↦ hapart.document id l hid htarget.located hl
  have hdocument := Extraction.readDocument_congr h.sameDirectories hsame
  rw [sourceFor, sourceFor, Extraction.ofTree, Extraction.ofTree, hdocument]

theorem Generated.write_eq_error_iff (h : Generated host s t requests u)
    (hapart : Apart host s t requests) (id : Text) (content : Bytes) (fault : FileFault) :
    u.write (s.componentFile id) content = .error fault ↔
      t.write (s.componentFile id) content = .error fault := by
  obtain ⟨d, hd, hdir⟩ := Tree.isDirectory_eq_true_iff.1 hapart.directory
  have hsame := h.sameDirectories
  have hlocate := hsame.locate_child (.ofText (id ++ Settings.componentEnding)) hd hdir
  exact ⟨hsame.symm.write_eq_error hlocate.symm, hsame.write_eq_error hlocate⟩

theorem Generated.of_write_eq_error (h : Generated host s t requests u)
    (hid : Identifier.require given.text? = .ok id) {content : Bytes} {fault : FileFault}
    (hwrite : t.write (s.componentFile id) content = .error fault) :
    Generated host s t (requests ++ [given]) u where
  written := by
    intro id' l hid' htarget
    rcases requested_append.1 hid' with hold | hnew
    · exact h.written id' l hold htarget
    · -- The component could be written if its file had a place.
      obtain rfl := Except.ok.inj (hid.symm.trans (requested_singleton.1 hnew))
      exact absurd (Tree.get?_of_write_eq_error hwrite htarget.located) htarget.free
  others := fun l hl ↦ h.others l fun id' hid' ↦ hl id' (requested_append.2 (.inl hid'))

theorem Generated.set (h : Generated host s t requests u)
    (hapart : Apart host s t (requests ++ [given]))
    (hid : Identifier.require given.text? = .ok id) (htarget : Target s t id l) :
    Generated host s t (requests ++ [given])
      (u.set l (.file (Utf8.encode (sourceFor host s id t).1))) where
  written := by
    intro id' l' hid' htarget'
    have hnew : Requested (requests ++ [given]) id :=
      requested_append.2 (.inr (requested_singleton.2 hid))
    by_cases hl : l' = l
    · subst hl
      obtain rfl := hapart.target_unique htarget htarget'
      exact Tree.get?_set_self u _ htarget.ne_nil
    · rw [Tree.get?_set_of_ne u _ hl]
      rcases requested_append.1 hid' with hold | hlast
      · exact h.written id' l' hold htarget'
      · obtain rfl := Except.ok.inj (hid.symm.trans (requested_singleton.1 hlast))
        exact absurd (Except.ok.inj (htarget'.located.symm.trans htarget.located)) hl
  others := by
    intro l' hl'
    have hne : l' ≠ l := by
      rintro rfl
      exact hl' id (requested_append.2 (.inr (requested_singleton.2 hid))) htarget
    rw [Tree.get?_set_of_ne u _ hne]
    exact h.others l' fun id' hid' ↦ hl' id' (requested_append.2 (.inl hid'))

theorem Generated.outcome (h : Generated host s t requests u)
    (hapart : Apart host s t (requests ++ [given]))
    (hid : Identifier.require given.text? = .ok id) :
    (Generation.outcome host s id u).1 = (Generation.outcome host s id t).1 ∧
      Generated host s t (requests ++ [given]) (Generation.outcome host s id u).2 := by
  have hbefore := hapart.of_append
  have hdir : u.isDirectory s.componentsDirectory = .ok true := by
    obtain ⟨d, hd, hdir⟩ := Tree.isDirectory_eq_true_iff.1 hapart.directory
    exact Tree.isDirectory_eq_true_iff.2
      ⟨d, h.sameDirectories.locate_eq_ok_iff.2 hd, h.sameDirectories.left d hdir⟩
  have hwrites := h.write_eq_error_iff hbefore id
  have hcases := outcome_cases_of_isDirectory host id hdir
  rw [h.sourceFor_eq hbefore id] at hcases
  rcases hcases with ⟨fault, hwrite, houtcome⟩ | ⟨v, hwrite, houtcome⟩
  · rcases outcome_cases_of_isDirectory host id hapart.directory with
      ⟨fault', hwrite', houtcome'⟩ | ⟨v', hwrite', -⟩
    · obtain rfl := Except.error.inj (hwrite'.symm.trans ((hwrites _ _).1 hwrite))
      rw [houtcome, houtcome']
      exact ⟨rfl, h.of_write_eq_error hid hwrite'⟩
    · rw [(hwrites _ _).1 hwrite] at hwrite'
      cases hwrite'
  · rcases outcome_cases_of_isDirectory host id hapart.directory with
      ⟨fault', hwrite', -⟩ | ⟨v', hwrite', houtcome'⟩
    · rw [(hwrites _ _).2 hwrite'] at hwrite
      cases hwrite
    · obtain ⟨l, hl, -, rfl⟩ := Tree.write_eq_ok_iff.1 hwrite
      obtain ⟨l', hl', hfree, -⟩ := Tree.write_eq_ok_iff.1 hwrite'
      obtain rfl := Except.ok.inj (hl'.symm.trans (h.sameDirectories.locate_eq_ok_iff.1 hl))
      rw [houtcome, houtcome']
      exact ⟨rfl, h.set hapart hid ⟨hl', hfree⟩⟩

theorem Generated.exists_yields_run (h : Generated host s t requests u)
    (hapart : Apart host s t (requests ++ [given])) :
    ∃ v, (run host s given).Yields u (alone host s t given) v ∧
      Generated host s t (requests ++ [given]) v := by
  cases hid : Identifier.require given.text? with
  | error fault =>
    have hrun := yields_run_of_error host s u hid
    have halone : alone host s t given = .failure fault.message :=
      (yields_run_of_error host s t hid).value []
    have hsame : ∀ id, Requested (requests ++ [given]) id ↔ Requested requests id := by
      intro id
      simp [requested_append, requested_singleton, hid]
    rw [halone]
    exact ⟨u, hrun, fun id l hid' ↦ h.written id l ((hsame id).1 hid'),
      fun l hl ↦ h.others l fun id hid' ↦ hl id ((hsame id).2 hid')⟩
  | ok id =>
    obtain ⟨houtcome, hgenerated⟩ := h.outcome hapart hid
    have hrun := yields_run_of_ok host s u hid
    rw [houtcome] at hrun
    have halone := (yields_run_of_ok host s t hid).value []
    rw [← halone] at hrun
    exact ⟨_, hrun, hgenerated⟩

theorem Generated.exists_yields_runAll (h : Generated host s t requests u)
    (hapart : Apart host s t (requests ++ requests')) :
    ∃ v, (runAll host s requests').Yields u (requests'.map (alone host s t)) v ∧
      Generated host s t (requests ++ requests') v := by
  induction requests' generalizing requests u with
  | nil =>
    rw [List.append_nil]
    exact ⟨u, Work.yields_pure _ u, h⟩
  | cons given rest ih =>
    have happend : requests ++ given :: rest = requests ++ [given] ++ rest := by simp
    rw [happend] at hapart ⊢
    obtain ⟨v, hrun, hv⟩ := h.exists_yields_run hapart.of_append
    obtain ⟨w, hrest, hw⟩ := ih hv hapart
    refine ⟨w, ?_, hw⟩
    rw [runAll, List.mapM_cons]
    exact hrun.bind (hrest.bind (Work.yields_pure _ w))

/-- Generations one after another give the manifests that each would give as the only one, and
leave a tree that depends on nothing but the ids that are asked for. -/
theorem runAll_eq_alone (host : Host) (s : Settings) {t : Tree} (records records' : List Log.Record)
    {requests requests' : List Json} (hapart : Apart host s t requests)
    (hsame : ∀ id, Requested requests id ↔ Requested requests' id) :
    let done := (runAll host s requests).run ⟨t, records, none⟩
    let done' := (runAll host s requests').run ⟨t, records', none⟩
    done.1 = requests.map (alone host s t) ∧ done'.1 = requests'.map (alone host s t) ∧
      ∀ l, done.2.tree.get? l = done'.2.tree.get? l := by
  intro done done'
  have hapart' : Apart host s t requests' :=
    ⟨hapart.directory, fun id l hid ↦ hapart.document id l ((hsame id).2 hid)⟩
  have hstart := Generated.refl host s t
  obtain ⟨u, hrun, hu : Generated host s t requests u⟩ := hstart.exists_yields_runAll hapart
  obtain ⟨u', hrun', hu' : Generated host s t requests' u'⟩ := hstart.exists_yields_runAll hapart'
  refine ⟨hrun.value records, hrun'.value records', fun l ↦ ?_⟩
  rw [hrun.tree, hrun'.tree]
  exact hu.get?_eq hu' hsame l

theorem runAll_eq_alone_of_two :
    let host : Host := .withYaml ⟨.root, []⟩ "/" []
    let s := Settings.defaults ⟨.root, []⟩
    let t := (Tree.empty.set ["src"] .directory).set ["src", "components"] .directory
    let tile := Json.string (WideText.ofText "tile")
    let card := Json.string (WideText.ofText "card")
    let done := (runAll host s [tile, card]).run ⟨t, [], none⟩
    let done' := (runAll host s [card, tile, tile]).run ⟨t, [], none⟩
    (Apart host s t [tile, card] ∧
        ∀ id, Requested [tile, card] id ↔ Requested [card, tile, tile] id) ∧
      done.1 = [tile, card].map (alone host s t) ∧
      done'.1 = [card, tile, tile].map (alone host s t) ∧
      ∀ l, done.2.tree.get? l = done'.2.tree.get? l := by
  intro host s t tile card
  have hlost : ∀ l, t.locate (host.absolute s.sourceDocument) ≠ .ok l := by
    have hmissing : t.locate (host.absolute s.sourceDocument) =
        .error (.refused .missing s.sourceDocument) := by decide +kernel
    intro l hl
    rw [hmissing] at hl
    cases hl
  have hapart : Apart host s t [tile, card] := ⟨by decide +kernel, fun _ l _ _ ↦ hlost l⟩
  have hsame : ∀ id, Requested [tile, card] id ↔ Requested [card, tile, tile] id := by
    intro id
    simp only [Requested, List.mem_cons, List.not_mem_nil, or_false, or_self, exists_eq_or_imp,
      exists_eq_left]
    exact or_comm
  exact ⟨⟨hapart, hsame⟩, runAll_eq_alone host s [] [] hapart hsame⟩

end CanvasLift.Generation
