import CanvasLift.Project.Check
import CanvasLift.Project.Generation
import CanvasLift.Proofs.Except
import CanvasLift.Proofs.Project.Lockstep
import CanvasLift.Proofs.Project.Root
import CanvasLift.Proofs.Project.Scan

/-!
How far the work on a project reaches: the paths that it looks up, reads and writes, and what it
searches, lists and removes below them. The main statements are that all of it comes to the same where
nothing within its reach is different, and makes the same changes.
-/

namespace CanvasLift

/-- A path, and which of the names below the place that it spells out belong to it. -/
structure Reach where
  path : Path
  below : List Name → Bool

namespace Reach

def only (p : Path) : Reach := ⟨p, fun _ ↦ false⟩

def listed (p : Path) : Reach := ⟨p, fun names ↦ names.length = 1⟩

def searched (p : Path) : Reach := ⟨p, fun names ↦ names.dropLast.all Deletion.isSearched⟩

def whole (p : Path) : Reach := ⟨p, fun _ ↦ true⟩

/-- Whether a place is on the way of the path, or below its end in a place that belongs to it. -/
def covers (r : Reach) (l : Location) : Bool :=
  l ∈ r.path.places || r.path.place.isPrefixOf l && r.below (l.drop r.path.place.length)

def Within (used : Location → Prop) (r : Reach) : Prop := ∀ l, r.covers l = true → used l

variable {used : Location → Prop} {r : Reach}

theorem Within.path (h : r.Within used) : r.path.Within used := by
  intro l hl
  apply h
  simp [covers, hl]

theorem Within.below (h : r.Within used) {names : List Name} (hnames : r.below names = true) :
    used (r.path.place ++ names) := by
  apply h
  simp [covers, hnames]

end Reach

def reachesOf (given : Option Text) (reaches : Text → List Reach) : List Reach :=
  match Identifier.require given with
  | .ok id => reaches id
  | .error _ => []

theorem reachesOf_of_ok {given : Option Text} {id : Text} (h : Identifier.require given = .ok id)
    (reaches : Text → List Reach) : reachesOf given reaches = reaches id := by
  rw [reachesOf, h]

section Reaches

variable (host : Host) (s : Settings)

def Settings.reaches (t : Tree) (p : Path) : List Reach :=
  match (host.expand? p).map host.resolve with
  | some (.ok p) => .only p :: ((locate host t p).toOption.map .only).toList
  | _ => []

def Extraction.reaches (given : Option Text) (document : Path) : List Reach :=
  reachesOf given fun _ ↦ [.only (host.absolute document)]

def Generation.reaches (given : Option Text) : List Reach :=
  reachesOf given fun id ↦ [.only (host.absolute s.sourceDocument), .only (s.componentFile id)]

def Deletion.reaches (given : Option Text) : List Reach :=
  reachesOf given fun id ↦ [.searched s.sourceDirectory, .only (s.componentFile id),
    .whole (componentDirectory s id)]

def Check.reaches : Option Text → List Reach
  | none | some [] => [.listed s.componentsDirectory]
  | some name => [.only (target s name)]

end Reaches

variable {used : Location → Prop} {R : Workspace → Workspace → Prop} {host : Host} {s : Settings}
  {t u : Tree} {w w' : Workspace} {p : Path} {id : Text}

namespace Settings

section Congr

variable (h : Tree.AgreeOn used t u)
include h

end Congr

end Settings

namespace Extraction

theorem ofTree_congr (h : Tree.AgreeOn used t u) (hp : p.Within used) :
    ofTree u id p = ofTree t id p := by
  rw [ofTree, ofTree, readDocument, readDocument, h.isFile_eq hp, h.read_eq hp]

section Together

variable (h : Lockstep used R)
include h

theorem together_record (hR : R w w') (r : Except Fault Extraction) :
    Work.Together R (record id r) (record id r) w w' := by
  rw [record.eq_def]
  split
  · exact (Work.together_note h _ _ _ hR).bind fun v v' hR ↦ Work.together_note h _ _ _ hR
  · exact Work.together_note h _ _ _ hR
  · exact Work.together_note h _ _ _ hR
  · exact Work.together_pure () hR

theorem together_run (hR : R w w') (hp : (host.absolute p).Within used) :
    Work.Together R (run host id p) (run host id p) w w' := by
  apply Work.Together.get_bind
  rw [ofTree_congr (h.agreeOn hR) hp]
  exact (together_record h hR _).bind fun v v' hR ↦ Work.together_pure _ hR

end Together

end Extraction

namespace Generation

variable (h : Lockstep used R)
include h

theorem together_buildSource (hR : R w w') (hp : (host.absolute s.sourceDocument).Within used) :
    Work.Together R (buildSource host s id) (buildSource host s id) w w' := by
  rw [buildSource]
  refine (Extraction.together_run h hR hp).bind fun v v' hR ↦ ?_
  split
  · exact Work.together_pure _ hR
  · refine (Work.together_note h _ _ _ hR).bind fun v v' hR ↦ ?_
    exact (Work.together_note h _ _ _ hR).bind fun v v' hR ↦ Work.together_pure _ hR

theorem together_write (hR : R w w') (hp : p.Within used) (source : Text) :
    Attempt.Together R (write p source) (write p source) w w' := by
  apply Attempt.Together.get_bind
  obtain ⟨hmade, hR⟩ := h.makeDirectories hR hp.parent
  dsimp only
  rw [hmade]
  refine (Attempt.together_withTree hR).bind fun _ v v' _ hR ↦ ?_
  split
  · exact Attempt.together_throw _ hR
  · refine Attempt.together_change hR ?_
    have hwrite := h.write hR hp (Utf8.encode source)
    generalize v.tree.write p (Utf8.encode source) = r at hwrite ⊢
    generalize v'.tree.write p (Utf8.encode source) = r' at hwrite ⊢
    cases hwrite with
    | ok hR => exact .ok hR
    | error fault => exact .error _

theorem together_attempt {given : Option Text} (hR : R w w')
    (hreach : ∀ r ∈ reaches host s given, r.Within used) :
    Attempt.Together R (attempt host s given) (attempt host s given) w w' := by
  rw [attempt]
  cases hid : Identifier.require given with
  | error fault => exact Attempt.together_throw _ hR
  | ok id =>
    rw [reaches, reachesOf_of_ok hid] at hreach
    have hdocument := hreach (.only (host.absolute s.sourceDocument)) (by simp)
    have hfile := hreach (.only (s.componentFile id)) (by simp)
    refine (Attempt.together_lift (together_buildSource h hR hdocument.path)).bind ?_
    rintro ⟨source, origin⟩ v v' - hR
    exact (together_write h hR hfile.path source).bind fun _ v v' _ hR ↦ Attempt.together_pure _ hR

theorem together_run {given : Json} (hR : R w w')
    (hreach : ∀ r ∈ reaches host s given.text?, r.Within used) :
    Work.Together R (run host s given) (run host s given) w w' := by
  rw [run]
  refine Work.Together.bind (together_attempt h hR hreach) fun v v' hR ↦ ?_
  split
  · exact (Work.together_note h _ _ _ hR).bind fun v v' hR ↦ Work.together_pure _ hR
  · dsimp only
    split
    · exact (Work.together_note h _ _ _ hR).bind fun v v' hR ↦ Work.together_pure _ hR
    · exact (Work.together_note h _ _ _ hR).bind fun v v' hR ↦ Work.together_pure _ hR

end Generation

namespace Deletion

theorem sourceFiles_congr (h : Tree.AgreeOn used t u)
    (hreach : (Reach.searched s.sourceDirectory).Within used) : sourceFiles s u = sourceFiles s t := by
  have hp : s.sourceDirectory.Within used := hreach.path
  rw [sourceFiles, sourceFiles, h.isDirectory_eq hp, h.locate_eq hp]
  cases ht : t.locate s.sourceDirectory with
  | error fault => rfl
  | ok top =>
    have hwalk : u.walk top isSearched = t.walk top isSearched := by
      refine h.walk_eq fun names _ hnames ↦ ?_
      rw [Tree.eq_place_of_locate ht]
      exact hreach.below (List.all_eq_true.2 hnames)
    simp only [bind, Except.bind, hwalk]

theorem within_of_mem_sourceFiles (ht : t.WellFormed)
    (hreach : (Reach.searched s.sourceDirectory).Within used) {files : List Path}
    (hfiles : sourceFiles s t = .ok files) (hp : p ∈ files) : p.Within used := by
  obtain ⟨found, hfound, rfl⟩ := exists_found ht hfiles
  obtain ⟨names, hnames, rfl⟩ := List.mem_map.1 hp
  obtain ⟨⟨l, content, hat⟩, -⟩ := (hfound.mem_iff names).1 hnames
  refine hreach.path.join (hat.up_not_mem ht) fun k hk _ ↦ hreach.below ?_
  have hdrop : k.dropLast <+: names.dropLast :=
    List.prefix_of_prefix_length_le ((List.dropLast_prefix k).trans hk) (List.dropLast_prefix names)
      (by simpa using Nat.sub_le_sub_right hk.length_le 1)
  exact List.all_eq_true.2 fun name hname ↦ hat.searched name (hdrop.subset hname)

theorem fst_mem_of_revisions {files : List Path} {plan : List (Path × Text)}
    (h : ((revisions s id files).run.run w).1 = .ok plan) : ∀ q ∈ plan, q.1 ∈ files := by
  induction files generalizing w plan with
  | nil =>
    obtain rfl := Except.ok.inj h
    exact fun q hq ↦ absurd hq List.not_mem_nil
  | cons p rest ih =>
    rw [revisions] at h
    split at h
    · exact fun q hq ↦ List.mem_cons_of_mem p (ih h q hq)
    · obtain ⟨new, v, -, h⟩ := Attempt.exists_of_bind_eq_ok h
      obtain ⟨more, v', hmore, h⟩ := Attempt.exists_of_bind_eq_ok h
      obtain rfl := Except.ok.inj h
      intro q hq
      obtain hq | hq := List.mem_append.1 hq
      · obtain ⟨text, -, rfl⟩ := Option.map_eq_some_iff.1 (Option.mem_toList.1 hq)
        exact List.mem_cons_self
      · exact List.mem_cons_of_mem p (ih (congrArg Prod.fst hmore) q hq)

section Together

variable (h : Lockstep used R)
include h

theorem together_revised? (hR : R w w') (hp : p.Within used) :
    Attempt.Together R (revised? s id p) (revised? s id p) w w' := by
  rw [revised?]
  refine Attempt.Together.look_bind hR ?_ fun bytes _ ↦ ?_
  · rw [(h.agreeOn hR).read_eq hp]
  · dsimp only
    split
    · exact (Attempt.together_note h _ _ _ hR).bind fun _ v v' _ hR ↦ Attempt.together_pure _ hR
    · exact Attempt.together_pure _ hR

theorem together_revisions {files : List Path} (hR : R w w') (hfiles : ∀ p ∈ files, p.Within used) :
    Attempt.Together R (revisions s id files) (revisions s id files) w w' := by
  induction files generalizing w w' with
  | nil => exact Attempt.together_pure _ hR
  | cons p rest ih =>
    obtain ⟨hp, hrest⟩ := List.forall_mem_cons.1 hfiles
    rw [revisions]
    split
    · exact ih hR hrest
    · refine (together_revised? h hR hp).bind fun new v v' _ hR ↦ ?_
      exact (ih hR hrest).bind fun more v v' _ hR ↦ Attempt.together_pure _ hR

theorem together_applyRevisions {plan : List (Path × Text)} (hR : R w w')
    (hplan : ∀ q ∈ plan, q.1.Within used) :
    Attempt.Together R (applyRevisions s id plan) (applyRevisions s id plan) w w' := by
  induction plan generalizing w w' with
  | nil => exact Attempt.together_pure _ hR
  | cons q rest ih =>
    obtain ⟨hq, hrest⟩ := List.forall_mem_cons.1 hplan
    rw [applyRevisions]
    have hwrite := (h.write hR hq (Utf8.encode q.2)).mapError Fault.file
    refine (Attempt.together_change hR hwrite).bind fun _ v v' _ hR ↦ ?_
    refine (Attempt.together_note h _ _ _ hR).bind fun _ v v' _ hR ↦ ?_
    exact (ih hR hrest).bind fun more v v' _ hR ↦ Attempt.together_pure _ hR

theorem together_removeIf {test : Tree → Path → Except FileFault Bool} (hR : R w w')
    (hp : p.Within used) (htest : test w'.tree p = test w.tree p)
    (hbelow : test w.tree p = .ok true → w.tree.get? p.place = some .directory →
      ∀ m, p.place <+: m → used m) :
    Attempt.Together R (removeIf test p) (removeIf test p) w w' := by
  rw [removeIf]
  refine Attempt.Together.look_bind hR (by rw [htest]) fun b hb ↦ ?_
  cases b with
  | false => exact Attempt.together_pure _ hR
  | true =>
    refine Attempt.Together.bind (Attempt.together_change hR ?_) fun _ v v' _ hR ↦
      Attempt.together_pure _ hR
    rw [(h.agreeOn hR).locate_eq hp]
    cases hl : w.tree.locate p with
    | error fault => exact .error _
    | ok l =>
      obtain rfl := Tree.eq_place_of_locate hl
      exact .ok (h.remove hR hp.place (hbelow (mapError_eq_ok_iff.1 hb)))

theorem together_remove (hR : R w w') (hsearch : (Reach.searched s.sourceDirectory).Within used)
    (hfile : (s.componentFile id).Within used)
    (hdirectory : (Reach.whole (componentDirectory s id)).Within used) :
    Attempt.Together R (remove s id) (remove s id) w w' := by
  rw [remove]
  refine Attempt.Together.look_bind hR ?_ fun files hfiles ↦ ?_
  · rw [sourceFiles_congr (h.agreeOn hR) hsearch]
  have hwithin : ∀ p ∈ files, p.Within used := fun p ↦
    within_of_mem_sourceFiles (h.wellFormed hR) hsearch (mapError_eq_ok_iff.1 hfiles)
  refine (together_revisions h hR hwithin).bind fun plan v v' hplan hR ↦ ?_
  have hplanned : ∀ q ∈ plan, q.1.Within used := fun q hq ↦
    hwithin q.1 (fst_mem_of_revisions hplan q hq)
  refine (together_applyRevisions h hR hplanned).bind fun updated v v' _ hR ↦ ?_
  refine (together_removeIf h hR hfile ((h.agreeOn hR).isFile_eq hfile) ?_).bind
    fun file v v' _ hR ↦ ?_
  · -- Where the test finds a file there is no directory.
    intro htest hdir
    obtain ⟨l, content, hl, hthere⟩ := Tree.isFile_eq_true_iff.1 htest
    rw [← Tree.eq_place_of_locate hl, hthere] at hdir
    cases hdir
  have hpath : (componentDirectory s id).Within used := hdirectory.path
  refine (together_removeIf h hR hpath ((h.agreeOn hR).isDirectory_eq hpath) ?_).bind
    fun directory v v' _ hR ↦ ?_
  · rintro - - m ⟨names, rfl⟩
    exact hdirectory.below rfl
  · exact (Attempt.together_note h _ _ _ hR).bind fun _ v v' _ hR ↦ Attempt.together_pure _ hR

theorem together_run {given : Json} (hR : R w w')
    (hreach : ∀ r ∈ reaches s given.text?, r.Within used) :
    Work.Together R (run s given) (run s given) w w' := by
  rw [run]
  cases hid : Identifier.require given.text? with
  | error fault => exact Work.together_pure _ hR
  | ok id =>
    rw [reaches, reachesOf_of_ok hid] at hreach
    have hsearch := hreach (.searched s.sourceDirectory) (by simp)
    have hfile := hreach (.only (s.componentFile id)) (by simp)
    have hdirectory := hreach (.whole (componentDirectory s id)) (by simp)
    refine Work.Together.bind (together_remove h hR hsearch hfile.path hdirectory) fun v v' hR ↦ ?_
    split
    · exact Work.together_pure _ hR
    · exact (Work.together_note h _ _ _ hR).bind fun v v' hR ↦ Work.together_pure _ hR

end Together

end Deletion

namespace Check

section Components

variable (h : Tree.AgreeOn used t u) (ht : t.WellFormed)
include h ht

end Components

section Run

variable {component : Option Text} (ht : t.WellFormed)
  (hreach : ∀ r ∈ reaches s component, r.Within used)
include ht hreach

end Run

end Check

end CanvasLift
