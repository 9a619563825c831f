import CanvasLift.Proofs.Files.Path
import CanvasLift.Proofs.Files.WellFormed
import Mathlib.Data.List.Infix

/-!
Trees that agree on some places. A path leads through no places but those that its names spell out,
so where two trees agree on these it comes to the same in both, and so does a search below it.
-/

namespace CanvasLift

namespace Path

variable {used : Location → Prop} {p : Path} {names : List Name} {name : Name}

/-- The place that the names of a path spell out. -/
def place (p : Path) : Location := collapse p.names

/-- The places that a path leads through, from the root to the one that it spells out. -/
def places (p : Path) : List Location := p.names.inits.map collapse

def Within (used : Location → Prop) (p : Path) : Prop := ∀ l ∈ p.places, used l

theorem collapse_concat (names : List Name) (name : Name) :
    collapse (names ++ [name]) =
      if name = up then (collapse names).dropLast else collapse names ++ [name] := by
  rw [collapse, List.foldl_append]
  rfl

theorem collapse_append (names : List Name) {more : List Name} (h : up ∉ more) :
    collapse (names ++ more) = collapse names ++ more := by
  rw [collapse, List.foldl_append]
  exact foldl_collapse_of_up_not_mem _ h

theorem within_iff : Within used p ↔ ∀ names, names <+: p.names → used (collapse names) := by
  rw [Within, places, List.forall_mem_map]
  exact forall_congr' fun names ↦ imp_congr_left (List.mem_inits names p.names)

theorem Within.place (h : Within used p) : used p.place := within_iff.1 h _ List.prefix_rfl

theorem Within.of_prefix (h : Within used p) (hpre : names <+: p.names) (anchor : Anchor) :
    Within used ⟨anchor, names⟩ :=
  within_iff.2 fun k hk ↦ within_iff.1 h k (hk.trans hpre)

theorem Within.parent (h : Within used p) : Within used p.parent :=
  h.of_prefix (List.dropLast_prefix _) _

theorem Within.join (h : Within used p) (hup : up ∉ names)
    (hbelow : ∀ k, k <+: names → k ≠ [] → used (p.place ++ k)) :
    Within used (p.join ⟨.here, names⟩) := by
  refine within_iff.2 fun k hk ↦ ?_
  have hjoin : (p.join ⟨.here, names⟩).names = p.names ++ names := rfl
  rw [hjoin] at hk
  obtain ⟨rest, hrest⟩ := hk
  obtain ⟨k', hp, -⟩ | ⟨k', rfl, hnames⟩ := List.append_eq_append_iff.1 hrest
  · exact within_iff.1 h k ⟨k', hp.symm⟩
  · by_cases hk' : k' = []
    · rw [hk', List.append_nil]
      exact h.place
    · have hpre : k' <+: names := ⟨rest, hnames.symm⟩
      rw [collapse_append _ fun hmem ↦ hup (hpre.subset hmem)]
      exact hbelow k' hpre hk'

theorem Within.child (h : Within used p) (hname : name ≠ up) (hbelow : used (p.place ++ [name])) :
    Within used (p.child name) := by
  have hup : up ∉ [name] := by simpa using Ne.symm hname
  refine h.join hup fun k hk hne ↦ ?_
  obtain ⟨rest, hk⟩ := hk
  obtain ⟨rfl, -⟩ | ⟨rfl, -⟩ := List.append_eq_singleton_iff.1 hk
  · exact absurd rfl hne
  · exact hbelow

end Path

namespace Tree

variable {used : Location → Prop} {t u : Tree} {p : Path} {l : Location} {names : List Name}

def AgreeOn (used : Location → Prop) (t u : Tree) : Prop := ∀ l, used l → u.get? l = t.get? l

theorem follow_congr {here : Location} {name : Name} (h : u.get? here = t.get? here) :
    u.follow here [name] = t.follow here [name] := by
  simp only [follow, h]

theorem follow_up {here : Location} (h : t.get? here = some .directory) :
    t.follow here [Path.up] = .ok here.dropLast := by
  rw [follow, h]
  rfl

theorem eq_collapse_of_follow (h : t.follow [] names = .ok l) : l = Path.collapse names := by
  induction names using List.reverseRecOn generalizing l with
  | nil => exact (Except.ok.inj h).symm
  | append_singleton names name ih =>
    rw [follow_append] at h
    cases hd : t.follow [] names with
    | error refusal =>
      rw [hd] at h
      cases h
    | ok d =>
      obtain rfl := ih hd
      rw [hd] at h
      replace h : t.follow (Path.collapse names) [name] = .ok l := h
      rw [Path.collapse_concat]
      by_cases hname : name = Path.up
      · have hdir := get?_of_follow_cons h
        rw [if_pos hname]
        simpa [follow, hdir, hname, eq_comm] using h
      · rw [if_neg hname]
        exact (follow_singleton hname h).1

theorem eq_place_of_locate (h : t.locate p = .ok l) : l = p.place :=
  eq_collapse_of_follow (follow_of_locate h)

theorem WellFormed.exists_of_locate (ht : t.WellFormed) (hl : t.locate p = .ok l)
    (hdir : t.get? l ≠ some .directory) : ∃ d name, l = d ++ [name] ∧ name ≠ Path.up ∧
      t.get? d = some .directory ∧ d ∈ p.places := by
  have hf := follow_of_locate hl
  obtain ⟨anchor, names⟩ := p
  cases names using List.reverseRecOn with
  | nil =>
    obtain rfl := Except.ok.inj hf
    exact absurd rfl hdir
  | append_singleton names name =>
    rw [follow_append] at hf
    cases hd : t.follow [] names with
    | error refusal =>
      rw [hd] at hf
      cases hf
    | ok d =>
      rw [hd] at hf
      replace hf : t.follow d [name] = .ok l := hf
      have hthere := get?_of_follow_cons hf
      have hname : name ≠ Path.up := by
        rintro rfl
        rw [follow_up hthere] at hf
        obtain rfl := Except.ok.inj hf
        by_cases hnil : d = []
        · exact hdir (by rw [hnil]; rfl)
        · exact hdir (wellFormed_iff.1 ht d _ hnil hthere).2
      refine ⟨d, name, (follow_singleton hname hf).1, hname, hthere, ?_⟩
      rw [eq_collapse_of_follow hd]
      exact List.mem_map_of_mem ((List.mem_inits _ _).2 (List.prefix_append _ _))

section AgreeOn

variable (h : AgreeOn used t u)
include h

theorem AgreeOn.follow_eq (hused : ∀ k, k <+: names → used (Path.collapse k)) :
    u.follow [] names = t.follow [] names := by
  induction names using List.reverseRecOn with
  | nil => rfl
  | append_singleton names name ih =>
    rw [follow_append, follow_append, ih fun k hk ↦ hused k (hk.trans (List.prefix_append _ _))]
    cases hd : t.follow [] names with
    | error refusal => rfl
    | ok d =>
      obtain rfl := eq_collapse_of_follow hd
      exact follow_congr (h _ (hused names (List.prefix_append _ _)))

variable (hp : p.Within used)
include hp

theorem AgreeOn.locate_eq : u.locate p = t.locate p := by
  rw [locate, locate, h.follow_eq (Path.within_iff.1 hp)]

theorem AgreeOn.get?_of_locate (hl : t.locate p = .ok l) : u.get? l = t.get? l := by
  rw [eq_place_of_locate hl]
  exact h _ hp.place

theorem AgreeOn.stat_eq : u.stat p = t.stat p := by
  rw [stat, stat, h.locate_eq hp]
  split
  · next l hl => rw [h.get?_of_locate hp hl]
  · rfl
  · rfl

theorem AgreeOn.isDirectory_eq : u.isDirectory p = t.isDirectory p := by
  rw [isDirectory, isDirectory, h.stat_eq hp]

theorem AgreeOn.isFile_eq : u.isFile p = t.isFile p := by
  rw [isFile, isFile, h.stat_eq hp]

theorem AgreeOn.read_eq : u.read p = t.read p := by
  rw [read, read, h.locate_eq hp]
  cases hl : t.locate p with
  | error fault => rfl
  | ok l => simp only [bind, Except.bind, h.get?_of_locate hp hl]

end AgreeOn

theorem AgreeOn.walk_eq (h : AgreeOn used t u) {top : Location} {enters : Name → Bool}
    (hbelow : ∀ names, names ≠ [] → (∀ name ∈ names.dropLast, enters name = true) →
      used (top ++ names)) : u.walk top enters = t.walk top enters := by
  refine walk_congr fun names ↦ ?_
  rw [mem_walk_iff, mem_walk_iff]
  refine and_congr_right fun hne ↦ and_congr_left fun henters ↦ ?_
  rw [h _ (hbelow names hne henters)]

end Tree

end CanvasLift
