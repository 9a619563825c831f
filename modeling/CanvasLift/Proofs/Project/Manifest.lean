import CanvasLift.Project.Generation
import CanvasLift.Proofs.Files.Limits
import CanvasLift.Proofs.Json.Printing
import CanvasLift.Proofs.Project.Generation
import Mathlib.Logic.Function.Iterate

namespace CanvasLift

open Json (IsSeparate isSeparate_ofText)

namespace Path

variable {p top : Path}

theorem mem_toText {s : Symbol} (h : s ∈ p.toText) :
    s = .char '/' ∨ s = .char '.' ∨ ∃ name ∈ p.names, s ∈ name := by
  have hjoined (h : s ∈ Text.joinWith [.char '/'] p.names) :
      s = .char '/' ∨ ∃ name ∈ p.names, s ∈ name := by
    refine Classical.byContradiction fun hnot ↦ ?_
    obtain ⟨hsep, hnames⟩ := not_or.1 hnot
    exact Text.not_mem_joinWith (by simpa using hsep) (fun name hname hs ↦ hnames ⟨name, hname, hs⟩) h
  rw [toText] at h
  split at h
  · split at h
    · exact .inr (.inl (List.mem_singleton.1 h))
    · exact (hjoined h).imp_right .inr
  · obtain h | h := List.mem_cons.1 h
    · exact .inl h
    · exact (hjoined h).imp_right .inr
  · obtain h | h := List.mem_cons.1 h
    · exact .inl h
    · obtain h | h := List.mem_cons.1 h
      · exact .inl h
      · exact (hjoined h).imp_right .inr

theorem isSeparate_toText (h : ∀ name ∈ p.names, IsSeparate name) : IsSeparate p.toText := by
  intro s hs
  obtain rfl | rfl | ⟨name, hname, hs⟩ := mem_toText hs
  · rfl
  · rfl
  · exact h name hname s hs

theorem isSeparate_relativeTo (h : ∀ name ∈ p.names, IsSeparate name) :
    IsSeparate (top.relativeTo p) := by
  rw [relativeTo, below?]
  split
  · next names hnames =>
    split at hnames
    · obtain rfl := Option.some.inj hnames
      exact isSeparate_toText fun name hname ↦ h name (List.mem_of_mem_drop hname)
    · cases hnames
  · exact isSeparate_toText h

theorem mem_toText_of_mem {s : Symbol} {name : Name} (hname : name ∈ p.names) (h : s ∈ name) :
    s ∈ p.toText := by
  have hjoined : s ∈ Text.joinWith [.char '/'] p.names := (Text.infix_joinWith_of_mem hname).subset h
  rw [toText]
  split
  · rwa [if_neg (List.ne_nil_of_mem hname)]
  · exact List.mem_cons_of_mem _ hjoined
  · exact List.mem_cons_of_mem _ (List.mem_cons_of_mem _ hjoined)

/-- The halves that stand for bytes are second halves. -/
theorem isSeparate_of_nameable (h : FileFault.ofName? p.toText = none) :
    ∀ name ∈ p.names, IsSeparate name := by
  intro name hname s hs
  have hnameable := FileFault.ofName?_eq_none_iff.1 h s (mem_toText_of_mem hname hs)
  cases s with
  | char c => rfl
  | half n =>
    have hbyte : 0x480 ≤ n.val ∧ n.val < 0x500 := by
      simpa [Symbol.isNameable, Symbol.isByte] using hnameable
    simp only [Symbol.isFirst, decide_eq_false_iff_not]
    omega

end Path

namespace Generation

variable {p : Path} {w : Workspace}

theorem writeFault_eq_file {fault : FileFault} (h : FileFault.ofName? p.toText = some fault)
    (q : Path) : writeFault q fault = .file fault := by
  cases fault with
  | refused refusal r => exact absurd h FileFault.ofName?_ne_refused
  | unencodable _ => rfl
  | nullCharacter => rfl

theorem isSeparate_message_writeFault (h : ∀ name ∈ p.names, IsSeparate name) (fault : FileFault) :
    IsSeparate (writeFault p fault).message := by
  cases fault with
  | refused refusal q =>
    intro s hs
    obtain hs | hs := List.mem_append.1 hs
    · obtain hs | hs := List.mem_append.1 hs
      · exact isSeparate_ofText _ s hs
      · exact Path.isSeparate_toText h s hs
    · exact isSeparate_ofText _ s hs
  | unencodable _ => exact isSeparate_ofText _
  | nullCharacter => exact isSeparate_ofText _

theorem run_write (p : Path) (source : Text) (w : Workspace) :
    ((write p source).run.run w).1 =
      match w.tree.makeDirectories p.parent with
      | (.error fault, _) => .error (writeFault p fault)
      | (.ok (), t) => ((t.write p (Utf8.encode source)).map fun _ ↦ ()).mapError (writeFault p) := by
  rw [write, Attempt.run_bind, Attempt.run_get]
  dsimp only
  obtain ⟨made, t⟩ := w.tree.makeDirectories p.parent
  rw [Attempt.run_bind, Attempt.run_modify]
  cases made with
  | error fault => rfl
  | ok =>
    dsimp only
    rw [change, Attempt.run_bind, Attempt.run_get]
    dsimp only [Workspace.withTree]
    cases t.write p (Utf8.encode source) <;> rfl

theorem separate_write {name : Name} (hname : IsSeparate name) (source : Text) (w : Workspace) :
    match ((write (p.child name) source).run.run w).1 with
    | .ok () => ∀ part ∈ (p.child name).names, IsSeparate part
    | .error fault => IsSeparate fault.message := by
  rw [run_write]
  have hparent : FileFault.ofName? (p.child name).parent.toText =
      FileFault.ofName? (⟨p.anchor, p.names⟩ : Path).toText := by
    rw [Path.parent, Path.child, List.dropLast_concat]
  cases hp : FileFault.ofName? (p.child name).parent.toText with
  | some fault =>
    rw [Tree.makeDirectories_of_ofName? hp]
    dsimp only
    rw [writeFault_eq_file hp]
    exact isSeparate_ofText _
  | none =>
    rw [hparent] at hp
    have hnames : ∀ part ∈ (p.child name).names, IsSeparate part := by
      simp only [Path.child, List.forall_mem_append, List.forall_mem_singleton]
      exact ⟨Path.isSeparate_of_nameable hp, hname⟩
    obtain ⟨made, t⟩ := w.tree.makeDirectories (p.child name).parent
    cases made with
    | error fault => exact isSeparate_message_writeFault hnames fault
    | ok =>
      dsimp only
      cases t.write (p.child name) (Utf8.encode source) with
      | ok u => exact fun part hpart ↦ hnames part hpart
      | error fault => exact isSeparate_message_writeFault hnames fault

theorem separate_attempt (host : Host) (s : Settings) (given : Option Text) (w : Workspace) :
    match ((attempt host s given).run.run w).1 with
    | .ok made => ∀ name ∈ (s.componentFile made.1).names, IsSeparate name
    | .error fault => IsSeparate fault.message := by
  rw [attempt]
  cases Identifier.require given with
  | error fault => exact isSeparate_ofText _
  | ok id =>
    dsimp only
    rw [Attempt.run_bind, Attempt.run_lift]
    obtain ⟨⟨source, origin⟩, w'⟩ := (buildSource host s id).run w
    dsimp only
    have hwrite := separate_write (p := s.componentsDirectory)
      (isSeparate_ofText (id ++ Settings.componentEnding)) source w'
    rw [Attempt.run_bind]
    change match ((write (s.componentFile id) source).run.run w').1 with
      | .ok () => _
      | .error fault => IsSeparate fault.message at hwrite
    generalize (write (s.componentFile id) source).run.run w' = done at hwrite ⊢
    obtain ⟨r, w''⟩ := done
    cases r with
    | ok => exact hwrite
    | error fault => exact hwrite

end Generation

namespace Manifest

open Json (Writable writable_bool writable_string writable_array writable_object)

structure Travels (depth : Nat) (m : Manifest) : Prop where
  writable : Writable depth m.toJson
  ofJson_toJson : ofJson m.toJson = m

theorem travels_manifest (depth : Nat) {s : Settings} {id : Text} (origin : Generation.Origin)
    (hnames : ∀ name ∈ (s.componentFile id).names, IsSeparate name) :
    Travels (depth + 2) (Generation.manifest s id origin) := by
  let p := s.componentFile id
  let fields : List (WideText × Json) := [("success", .bool true),
    ("files", .array [.string p.toText]), ("componentPath", .string (s.relative p)),
    ("componentTag", .string (.ofText ("<" ++ Identifier.componentName id ++ " />"))),
    ("origin", .string (.ofText origin.name))]
  have hjson : (Generation.manifest s id origin).toJson = .object fields := by cases origin <;> rfl
  have hkeys : (["success", "files", "componentPath", "componentTag", "origin"] :
      List WideText).Nodup := by decide
  have hseparate : ∀ field ∈ fields, IsSeparate field.1 := by
    simp only [fields, List.forall_mem_cons]
    exact ⟨isSeparate_ofText _, isSeparate_ofText _, isSeparate_ofText _, isSeparate_ofText _,
      isSeparate_ofText _, fun _ h ↦ absurd h List.not_mem_nil⟩
  have hfiles : Writable (depth + 1) (.array [.string p.toText]) := by
    refine writable_array ?_
    intro v hv
    obtain rfl := List.mem_singleton.1 hv
    exact writable_string _ (Path.isSeparate_toText hnames)
  have hvalues : ∀ field ∈ fields, Writable (depth + 1) field.2 := by
    simp only [fields, List.forall_mem_cons]
    exact ⟨writable_bool _ _, hfiles, writable_string _ (Path.isSeparate_relativeTo hnames),
      writable_string _ (isSeparate_ofText _), writable_string _ (isSeparate_ofText _),
      fun _ h ↦ absurd h List.not_mem_nil⟩
  refine ⟨?_, ?_⟩
  · rw [hjson]
    exact writable_object hkeys hseparate hvalues
  · cases origin <;> rfl

theorem travels_failure (depth : Nat) {message : WideText} (h : IsSeparate message) :
    Travels (depth + 1) (failure message) := by
  let fields : List (WideText × Json) := [("success", .bool false), ("error", .string message)]
  have hkeys : (["success", "error"] : List WideText).Nodup := by decide
  have hseparate : ∀ field ∈ fields, IsSeparate field.1 := by
    simp only [fields, List.forall_mem_cons]
    exact ⟨isSeparate_ofText _, isSeparate_ofText _, fun _ h ↦ absurd h List.not_mem_nil⟩
  have hvalues : ∀ field ∈ fields, Writable depth field.2 := by
    simp only [fields, List.forall_mem_cons]
    exact ⟨writable_bool _ _, writable_string _ h, fun _ h ↦ absurd h List.not_mem_nil⟩
  exact ⟨writable_object hkeys hseparate hvalues, rfl⟩

/-- Whatever happens while a component is generated, and wherever it is noted, the outcome is one of the
two kinds of manifests, and no text in it has a first half. -/
theorem run_cases (host : Host) (s : Settings) (given : Json) (w : Workspace) :
    let m := ((Generation.run host s given).run w).1
    (∃ id origin, m = Generation.manifest s id origin ∧
        ∀ name ∈ (s.componentFile id).names, IsSeparate name) ∨
      ∃ message, m = failure message ∧ IsSeparate message := by
  intro m
  have hm : m = ((Generation.run host s given).run w).1 := rfl
  have hattempt := Generation.separate_attempt host s given.text? w
  rw [Generation.run, StateT.run_bind] at hm
  generalize StateT.run (Generation.attempt host s given.text?).run w = attempted at hm hattempt
  obtain ⟨r, w'⟩ := attempted
  cases r with
  | ok made => exact .inl ⟨made.1, made.2, hm, hattempt⟩
  | error fault =>
    refine .inr ⟨fault.message, hm.trans ?_, hattempt⟩
    change (StateT.run (ite (fault.expected = true) (_ : Work Manifest) _) w').1 = failure fault.message
    split <;> rfl

theorem travels_run (depth : Nat) (host : Host) (s : Settings) (given : Json) (w : Workspace) :
    Travels (depth + 2) ((Generation.run host s given).run w).1 := by
  obtain ⟨id, origin, h, hnames⟩ | ⟨message, h, hmessage⟩ := run_cases host s given w
  · rw [h]
    exact travels_manifest depth origin hnames
  · rw [h]
    exact travels_failure (depth + 1) hmessage

/-- What is left of a manifest that has travelled: a success has no error and no empty origin, and a
failure nothing but its error. -/
def settled (m : Manifest) : Manifest :=
  if m.success then { m with error := none, origin := m.origin.filter (· ≠ []) }
  else { success := false, error := m.error }

theorem ofJson_toJson (m : Manifest) : ofJson m.toJson = m.settled := by
  obtain ⟨success, files, path, tag, error, origin⟩ := m
  cases success with
  | false => cases error <;> rfl
  | true =>
    have hread : ofJson (toJson ⟨true, files, path, tag, error, origin⟩) =
        ⟨true, (files.map Json.string).map Json.asText, path, tag, none, origin.filter (· ≠ [])⟩ := by
      cases path <;> cases tag <;> rcases origin with _ | _ | ⟨c, origin⟩ <;> rfl
    have hfiles : (files.map Json.string).map Json.asText = files := by
      rw [List.map_map]
      exact List.map_id files
    rw [hread, hfiles]
    rfl

theorem toJson_settled (m : Manifest) : m.settled.toJson = m.toJson := by
  obtain ⟨success, files, path, tag, error, origin⟩ := m
  cases success with
  | false => rfl
  | true =>
    rcases origin with _ | _ | ⟨c, origin⟩ <;> rfl

theorem settled_eq_self_iff (m : Manifest) : m.settled = m ↔
    if m.success then m.error = none ∧ m.origin ≠ some []
    else m.files = [] ∧ m.componentPath = none ∧ m.componentTag = none ∧ m.origin = none := by
  obtain ⟨success, files, path, tag, error, origin⟩ := m
  cases success with
  | false => simp [settled, eq_comm]
  | true => cases error <;> rcases origin with _ | _ | ⟨c, origin⟩ <;> simp [settled]

def travelled (value : Json) : Json := (ofJson value).toJson

theorem iterate_travelled (m : Manifest) (n : Nat) : travelled^[n] m.toJson = m.toJson := by
  have hstep : travelled m.toJson = m.toJson := by rw [travelled, ofJson_toJson, toJson_settled]
  induction n with
  | zero => rfl
  | succ n ih => rw [Function.iterate_succ_apply, hstep, ih]

/-- Whatever object a manifest is read from, it is written in a form that no further reading and writing
changes, and all that is read from it is the manifest that is settled, the same one if nothing of it is
left out. The manifests of all generations come back as they are, also from their texts. -/
theorem wire_form_stable (fields : List (WideText × Json)) (host : Host) (s : Settings)
    (given : Json) (w : Workspace) :
    let m := ofJson (.object fields)
    let made := ((Generation.run host s given).run w).1
    (ofJson m.toJson).toJson = m.toJson ∧ (∀ n, travelled^[n] m.toJson = m.toJson) ∧
      (∀ n, ofJson (travelled^[n] m.toJson) = m.settled) ∧
      (ofJson m.toJson = m ↔ if m.success then m.error = none ∧ m.origin ≠ some []
        else m.files = [] ∧ m.componentPath = none ∧ m.componentTag = none ∧ m.origin = none) ∧
      ofJson made.toJson = made ∧
      ∀ depth, (Json.ofText (depth + 2) made.toJson.compact).map ofJson = .ok made := by
  intro m made
  have htravels (depth : Nat) : Travels (depth + 2) made := travels_run depth host s given w
  have hiterate := iterate_travelled m
  refine ⟨by rw [ofJson_toJson, toJson_settled], hiterate, fun n ↦ by rw [hiterate, ofJson_toJson],
    by rw [ofJson_toJson, settled_eq_self_iff], (htravels 0).ofJson_toJson, fun depth ↦ ?_⟩
  obtain ⟨t, ht⟩ := (htravels depth).writable
  rw [Json.ofText_compact ht]
  exact congrArg Except.ok (htravels depth).ofJson_toJson

/-- Success is whatever holds, files are named by what they are, and an empty origin goes on the way. -/
example : ofJson (travelled (.object [("success", .int 1), ("files", .array [.null, .bool true]),
    ("error", .string "late"), ("origin", .string [])])) =
    { success := true, files := [("None" : Text), ("True" : Text)] } := by decide

end CanvasLift.Manifest
