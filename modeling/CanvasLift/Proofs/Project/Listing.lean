import CanvasLift.Proofs.Files.Limits
import CanvasLift.Proofs.Project.Check
import Mathlib.Data.List.TakeWhile

namespace CanvasLift

open Component
open Settings (componentEnding)

namespace Path

variable {p : Path}

theorem name_child (p : Path) (name : Name) : (p.child name).name = name := by
  simp [child, Path.name]

theorem suffix_of_not_mem (h : .char '.' ∉ p.name) : p.suffix = [] := by
  have htake : p.name.reverse.takeWhile (· ≠ .char '.') = p.name.reverse := by
    refine List.takeWhile_eq_self_iff.2 fun c hc ↦ ?_
    have hc' : c ∈ p.name := List.mem_reverse.1 hc
    simpa using fun heq : c = .char '.' ↦ h (heq ▸ hc')
  rw [suffix, htake]
  exact if_pos (.inr (by simp))

theorem suffix_of_name {stem ending : WideText} (hname : p.name = stem ++ .char '.' :: ending)
    (hdot : .char '.' ∉ ending) :
    p.suffix = if ending = [] ∨ stem = [] then [] else .char '.' :: ending := by
  have htake : p.name.reverse.takeWhile (· ≠ .char '.') = ending.reverse := by
    rw [hname, List.reverse_append, List.reverse_cons, List.append_assoc,
      List.takeWhile_append_of_pos]
    · simp
    · intro c hc
      have hc' : c ∈ ending := List.mem_reverse.1 hc
      simpa using fun heq : c = .char '.' ↦ hdot (heq ▸ hc')
  have hshort : p.name.length ≤ ending.length + 1 ↔ stem = [] := by
    rw [hname, List.length_append, List.length_cons, ← List.length_eq_zero_iff]
    omega
  rw [suffix, htake]
  simp only [List.reverse_eq_nil_iff, List.length_reverse, List.reverse_reverse, hshort]

theorem suffix_eq_iff {ending : WideText} (hne : ending ≠ []) (hdot : .char '.' ∉ ending) :
    p.suffix = .char '.' :: ending ↔
      ∃ stem, stem ≠ [] ∧ p.name = stem ++ .char '.' :: ending := by
  constructor
  · intro h
    by_cases hmem : .char '.' ∈ p.name
    · obtain ⟨last, front, hsplit, hlast⟩ := List.eq_append_cons_of_mem (List.mem_reverse.2 hmem)
      have hname : p.name = front.reverse ++ .char '.' :: last.reverse := by
        rw [← List.reverse_reverse p.name, hsplit, List.reverse_append, List.reverse_cons,
          List.append_assoc, List.singleton_append]
      rw [suffix_of_name hname (mt List.mem_reverse.1 hlast)] at h
      split at h
      · cases h
      · next hlong =>
        rw [← (List.cons.inj h).2]
        exact ⟨_, (not_or.1 hlong).2, hname⟩
    · rw [suffix_of_not_mem hmem] at h
      cases h
  · rintro ⟨stem, hstem, hname⟩
    rw [suffix_of_name hname hdot, if_neg (not_or.2 ⟨hne, hstem⟩)]

end Path

namespace Check

variable {s : Settings} {t : Tree} {d : Location} {name : Name} {bytes : Bytes} {p : Path}
  {paths : List Path} {r : Report} {verdict : Verdict}

/-- The file `name` in the components directory holds `bytes`, and by its name it is a component. -/
structure ComponentFile (s : Settings) (t : Tree) (name : Name) (bytes : Bytes) : Prop where
  read : t.read (s.componentsDirectory.child name) = .ok bytes
  ending : ∃ stem, stem ≠ [] ∧ name = stem ++ WideText.ofText componentEnding

theorem isComponentFile_iff :
    isComponentFile t (s.componentsDirectory.child name) = true ↔
      ∃ bytes, ComponentFile s t name bytes := by
  have hsuffix : (s.componentsDirectory.child name).suffix = WideText.ofText componentEnding ↔
      ∃ stem, stem ≠ [] ∧ name = stem ++ WideText.ofText componentEnding := by
    have hending :
        WideText.ofText componentEnding = .char '.' :: WideText.ofText ['t', 's', 'x'] := by decide
    rw [hending, Path.suffix_eq_iff (by decide) (by decide), Path.name_child]
  have hfile : ∀ r : Except FileFault Bool, r.toOption = some true ↔ r = .ok true := by
    intro r
    cases r <;> simp [Except.toOption]
  rw [isComponentFile, Bool.and_eq_true, decide_eq_true_iff, decide_eq_true_iff, hsuffix, hfile,
    Tree.isFile_eq_true_iff]
  constructor
  · rintro ⟨⟨l, bytes, hl, hget⟩, hending⟩
    exact ⟨bytes, Tree.read_eq_ok_iff.2 ⟨l, hl, hget⟩, hending⟩
  · rintro ⟨bytes, hread, hending⟩
    obtain ⟨l, hl, hget⟩ := Tree.read_eq_ok_iff.1 hread
    exact ⟨⟨l, bytes, hl, hget⟩, hending⟩

theorem verdictOf_eq_ok_iff : verdictOf t p = .ok verdict ↔
    ∃ content, t.read p = .ok (Utf8.encode content) ∧
      verdict = Completeness.classify (Text.unifyBreaks content) := by
  rw [verdictOf]
  cases hread : t.read p with
  | error fault => simp
  | ok bytes =>
    dsimp only
    constructor
    · intro h
      split at h
      · cases h
      · next content hdecode =>
        exact ⟨content, by rw [Utf8.encode_of_decode hdecode], (Except.ok.inj h).symm⟩
    · rintro ⟨content, hbytes, rfl⟩
      obtain rfl := Except.ok.inj hbytes
      rw [Utf8.decode_encode]

theorem verdictOf_ne_ok_of_isOutOfReach (h : isOutOfReach t p = true) :
    verdictOf t p ≠ .ok verdict := by
  intro hverdict
  obtain ⟨content, hread, -⟩ := verdictOf_eq_ok_iff.1 hverdict
  have hfile : t.isFile p = .ok true := by
    obtain ⟨l, hl, hget⟩ := Tree.read_eq_ok_iff.1 hread
    exact Tree.isFile_eq_true_iff.2 ⟨l, _, hl, hget⟩
  rw [isOutOfReach, hfile] at h
  cases h

theorem stubs_eq_filter (h : (paths.mapM fun p ↦ do return (p, ← verdictOf t p)) = .ok r) :
    r.stubs = paths.filter fun p ↦ verdictOf t p = .ok .stub := by
  induction paths generalizing r with
  | nil =>
    obtain rfl := Except.ok.inj h
    rfl
  | cons p paths ih =>
    obtain ⟨first, rest, hfirst, hrest, rfl⟩ := mapM_cons_eq_ok_iff.1 h
    obtain ⟨verdict, hverdict, hpair⟩ := exceptBind_eq_ok_iff.1 hfirst
    obtain rfl := Except.ok.inj hpair
    have hfilter := ih hrest
    rw [Report.stubs] at hfilter ⊢
    by_cases hstub : verdict = .stub
    · simp [hverdict, hstub, hfilter]
    · simp [hverdict, hstub, hfilter]

/-- Every name in the directory `d` of the components can be looked up, and every component file there
holds text. -/
structure Checkable (s : Settings) (t : Tree) (d : Location) : Prop where
  reach : ∀ name e, t.get? (d ++ [name]) = some e →
    ∃ b, t.isFile (s.componentsDirectory.child name) = .ok b
  text : ∀ name bytes, ComponentFile s t name bytes → ∃ content, bytes = Utf8.encode content

def placeholders (s : Settings) (t : Tree) (d : Location) : List Name :=
  (t.namesIn d).filter fun name ↦ isComponentFile t (s.componentsDirectory.child name) ∧
    verdictOf t (s.componentsDirectory.child name) = .ok .stub

theorem pairwise_placeholders (s : Settings) (t : Tree) (d : Location) :
    (placeholders s t d).Pairwise fun name other ↦ WideText.le name other = true ∧ name ≠ other :=
  (t.pairwise_namesIn d).filter _

theorem ComponentFile.name_ne_up (h : ComponentFile s t name bytes) : name ≠ Path.up := by
  obtain ⟨stem, -, rfl⟩ := h.ending
  exact Settings.append_componentEnding_ne_up stem

section Directory

variable (hd : t.locate s.componentsDirectory = .ok d)
include hd

theorem ComponentFile.mem_namesIn (h : ComponentFile s t name bytes) : name ∈ t.namesIn d := by
  obtain ⟨l, hl, hget⟩ := Tree.read_eq_ok_iff.1 h.read
  obtain ⟨rfl, -⟩ := Tree.locate_child h.name_ne_up hd hl
  exact Tree.mem_namesIn_iff.2 ⟨_, hget⟩

theorem mem_placeholders_iff : name ∈ placeholders s t d ↔
    ∃ content, ComponentFile s t name (Utf8.encode content) ∧
      Completeness.classify (Text.unifyBreaks content) = .stub := by
  rw [placeholders, List.mem_filter, decide_eq_true_iff, isComponentFile_iff, verdictOf_eq_ok_iff]
  constructor
  · rintro ⟨-, ⟨bytes, hfile⟩, content, hread, hstub⟩
    obtain rfl := Except.ok.inj (hfile.read.symm.trans hread)
    exact ⟨content, hfile, hstub.symm⟩
  · rintro ⟨content, hfile, hstub⟩
    exact ⟨hfile.mem_namesIn hd, ⟨_, hfile⟩, content, hfile.read, hstub.symm⟩

variable (hdir : t.get? d = some .directory)
include hdir

theorem files_of_directory : files s t none =
    .ok (((t.namesIn d).map s.componentsDirectory.child).filter (isOutOfReach t) ++
      ((t.namesIn d).map s.componentsDirectory.child).filter (isComponentFile t)) := by
  have hdirectory : t.isDirectory s.componentsDirectory = .ok true :=
    Tree.isDirectory_eq_true_iff.2 ⟨d, hd, hdir⟩
  rw [files_none, componentFiles, hdirectory, hd]
  rfl

theorem exists_run_iff_checkable : (∃ r, run s t none = .ok r) ↔ Checkable s t d := by
  rw [exists_run_iff (files_of_directory hd hdir)]
  simp only [List.mem_append, List.mem_filter, List.mem_map]
  constructor
  · intro h
    constructor
    · intro name e he
      have hname := Tree.mem_namesIn_iff.2 ⟨e, he⟩
      cases hfile : t.isFile (s.componentsDirectory.child name) with
      | ok b => exact ⟨b, rfl⟩
      | error fault =>
        have hout : isOutOfReach t (s.componentsDirectory.child name) = true := by
          rw [isOutOfReach, hfile]
          rfl
        obtain ⟨verdict, hverdict⟩ := h _ (.inl ⟨⟨name, hname, rfl⟩, hout⟩)
        exact absurd hverdict (verdictOf_ne_ok_of_isOutOfReach hout)
    · intro name bytes hfile
      have hcomponent := isComponentFile_iff.2 ⟨bytes, hfile⟩
      obtain ⟨verdict, hverdict⟩ := h _ (.inr ⟨⟨name, hfile.mem_namesIn hd, rfl⟩, hcomponent⟩)
      obtain ⟨content, hread, -⟩ := verdictOf_eq_ok_iff.1 hverdict
      exact ⟨content, Except.ok.inj (hfile.read.symm.trans hread)⟩
  · rintro ⟨hreach, htext⟩ p (⟨⟨name, hname, rfl⟩, hout⟩ | ⟨⟨name, -, rfl⟩, hcomponent⟩)
    · obtain ⟨e, he⟩ := Tree.mem_namesIn_iff.1 hname
      obtain ⟨b, hb⟩ := hreach name e he
      rw [isOutOfReach, hb] at hout
      cases hout
    · obtain ⟨bytes, hfile⟩ := isComponentFile_iff.1 hcomponent
      obtain ⟨content, rfl⟩ := htext name bytes hfile
      exact ⟨_, verdictOf_eq_ok_iff.2 ⟨content, hfile.read, rfl⟩⟩

theorem stubs_of_run (hr : run s t none = .ok r) :
    r.stubs = (placeholders s t d).map s.componentsDirectory.child := by
  have hempty (paths : List Path) : (paths.filter (isOutOfReach t)).filter
      (fun p ↦ verdictOf t p = .ok .stub) = [] := by
    rw [List.filter_eq_nil_iff]
    intro p hp
    simpa using verdictOf_ne_ok_of_isOutOfReach (List.mem_filter.1 hp).2
  rw [run, files_of_directory hd hdir] at hr
  rw [stubs_eq_filter hr, List.filter_append, hempty, List.nil_append, List.filter_filter,
    List.filter_map, placeholders]
  congr 2
  funext name
  simp [Bool.and_comm]

end Directory

end Check

end CanvasLift
