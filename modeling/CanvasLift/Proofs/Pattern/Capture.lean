import CanvasLift.Proofs.Pattern.Match

namespace CanvasLift.Pattern

def capturesNothing : Pattern → Bool
  | seq a b | alt a b => a.capturesNothing && b.capturesNothing
  | capture _ => false
  | empty | one _ | many _ | between _ => true

theorem captured_of_mem_ends {a : Pattern} (ha : a.capturesNothing = true) {c d : Cursor}
    (h : d ∈ a.ends c) : d.captured = c.captured := by
  induction a generalizing c d with
  | empty => rw [List.mem_singleton.1 h]
  | one p =>
    rw [ends] at h
    split at h
    · cases h
    · split at h
      · rw [List.mem_singleton.1 h]
      · cases h
  | many p =>
    obtain h | ⟨taken, rest, -, -, rfl⟩ := Cursor.mem_runs.1 h
    · cases h
    · rfl
  | between p =>
    rw [ends] at h
    split at h
    · rw [List.mem_singleton.1 h]
    · cases h
  | seq a b iha ihb =>
    obtain ⟨ha, hb⟩ := Bool.and_eq_true_iff.1 ha
    obtain ⟨e, he, hd⟩ := List.mem_flatMap.1 h
    rw [ihb hb hd, iha ha he]
  | alt a b iha ihb =>
    obtain ⟨ha, hb⟩ := Bool.and_eq_true_iff.1 ha
    obtain h | h := List.mem_append.1 h
    · exact iha ha h
    · exact ihb hb h
  | capture a => cases ha

theorem mem_of_mem_captured (a : Pattern) {c d : Cursor} (h : d ∈ a.ends c) {x : Char}
    (hx : x ∈ d.captured) : x ∈ c.captured ∨ x ∈ c.after := by
  induction a generalizing c d with
  | seq a b iha ihb =>
    obtain ⟨e, he, hd⟩ := List.mem_flatMap.1 h
    obtain ⟨taken, hr, -⟩ := takes_of_mem_ends a he
    obtain hx | hx := ihb hd hx
    · exact iha he hx
    · rw [hr.after]
      exact .inr (List.mem_append_right _ hx)
  | alt a b iha ihb =>
    obtain h | h := List.mem_append.1 h
    · exact iha h hx
    · exact ihb h hx
  | capture a =>
    obtain ⟨e, -, rfl⟩ := List.mem_map.1 h
    exact .inr (List.mem_of_mem_take hx)
  | empty | one | many | between => exact .inl (captured_of_mem_ends rfl h ▸ hx)

theorem mem_ends_chain_append {front back : List Pattern} {c d : Cursor} :
    d ∈ (chain (front ++ back)).ends c ↔
      ∃ e ∈ (chain front).ends c, d ∈ (chain back).ends e := by
  induction front generalizing c with
  | nil =>
    constructor
    · exact fun h ↦ ⟨c, List.mem_singleton_self c, h⟩
    · rintro ⟨e, he, h⟩
      rwa [List.mem_singleton.1 he] at h
  | cons a front ih =>
    have hcons (parts : List Pattern) : d ∈ (chain (a :: parts)).ends c ↔
        ∃ e ∈ a.ends c, d ∈ (chain parts).ends e := List.mem_flatMap
    rw [List.cons_append, hcons]
    constructor
    · rintro ⟨e, he, h⟩
      obtain ⟨f, hf, h⟩ := ih.1 h
      exact ⟨f, List.mem_flatMap.2 ⟨e, he, hf⟩, h⟩
    · rintro ⟨f, hf, h⟩
      obtain ⟨e, he, hf⟩ := List.mem_flatMap.1 hf
      exact ⟨e, he, ih.2 ⟨f, hf, h⟩⟩

theorem takes_captured {a : Pattern} {front back : List Pattern}
    (hback : (chain back).capturesNothing = true) {c d : Cursor}
    (h : d ∈ (chain (front ++ capture a :: back)).ends c) :
    ∃ u w, c.after = u ++ (d.captured ++ (w ++ d.after)) ∧
      (chain front).Takes c.before.head? u (d.captured ++ (w ++ d.after)) ∧
      a.Takes (lastOver c.before.head? u) d.captured (w ++ d.after) ∧
      (chain back).Takes (lastOver (lastOver c.before.head? u) d.captured) w d.after := by
  obtain ⟨e, he, h⟩ := mem_ends_chain_append.1 h
  obtain ⟨f, hf, hd⟩ := List.mem_flatMap.1 h
  obtain ⟨g, hg, rfl⟩ := List.mem_map.1 hf
  obtain ⟨u, hu, hfront⟩ := takes_of_mem_ends _ he
  obtain ⟨v, hv, ha⟩ := takes_of_mem_ends _ hg
  obtain ⟨w, hw, hrest⟩ := takes_of_mem_ends _ hd
  have hcaptured : d.captured = v := (captured_of_mem_ends hback hd).trans hv.upTo
  have hafter : g.after = w ++ d.after := hw.after
  refine ⟨u, w, ?_, ?_, ?_, ?_⟩
  · rw [hu.after, hv.after, hafter, hcaptured]
  · rwa [hcaptured, ← hafter, ← hv.after]
  · rwa [hcaptured, ← hafter, ← hu.last]
  · rw [hcaptured, ← hu.last, ← hv.last]
    exact hrest

theorem captureAfter?_of_takes {a : Pattern} {last : Option Char} {t found : Text}
    (htakes : ∃ taken rest, t = taken ++ rest ∧ a.Takes last taken rest)
    (hfound : ∀ d ∈ a.ends (.between last t), d.captured = found) :
    a.captureAfter? last t = some found := by
  obtain ⟨d, hd⟩ := Option.isSome_iff_exists.1 ((isSome_end?_between_iff a last t).2 htakes)
  have hmem : d ∈ a.ends (.between last t) := by
    rw [end?_eq_head?] at hd
    exact List.mem_of_head? hd
  cases t with
  | nil => rw [captureAfter?, hd, Option.map_some, hfound d hmem]
  | cons x t =>
    rw [captureAfter?, hd]
    exact congrArg some (hfound d hmem)

theorem captureAfter?_append {a : Pattern} {x : Char}
    (hstart : ∀ last taken rest, a.Takes last taken rest → taken.head? = some x) {front : Text}
    (hfront : x ∉ front) (last : Option Char) (t : Text) :
    a.captureAfter? last (front ++ t) = a.captureAfter? (lastOver last front) t := by
  induction front generalizing last with
  | nil => rfl
  | cons y front ih =>
    obtain ⟨hy, hfront⟩ := not_or.1 (mt List.mem_cons.2 hfront)
    have hnone : a.end? (.between last (y :: (front ++ t))) = none := by
      rw [← Option.not_isSome_iff_eq_none, isSome_end?_iff]
      rintro ⟨taken, rest, heq, htakes⟩
      have hhead := hstart _ _ _ htakes
      cases taken with
      | nil => cases hhead
      | cons z taken =>
        obtain ⟨rfl, -⟩ := List.cons.inj heq
        exact hy (Option.some.inj hhead).symm
    rw [List.cons_append, captureAfter?, hnone, lastOver_cons]
    exact ih hfront (some y)

theorem capture?_eq_none_iff {a : Pattern} {t : Text} :
    a.capture? t = none ↔ a.occursIn t = false := by
  rw [occursIn, ← Bool.not_eq_true, Option.not_isSome_iff_eq_none]

/-- The captures of all matches in a text that a character may precede, wherever they start and end,
the leftmost first. -/
def allCapturesAfter (a : Pattern) : (last : Option Char) → Text → List Text
  | last, [] => (a.ends (.between last [])).map (·.captured)
  | last, x :: rest =>
    (a.ends (.between last (x :: rest))).map (·.captured) ++ allCapturesAfter a (some x) rest

def allCaptures (a : Pattern) (t : Text) : List Text := a.allCapturesAfter none t

theorem captureAfter?_eq_head? (a : Pattern) (last : Option Char) (t : Text) :
    a.captureAfter? last t = (a.allCapturesAfter last t).head? := by
  induction t generalizing last with
  | nil => rw [captureAfter?, allCapturesAfter, end?_eq_head?, List.head?_map]
  | cons x t ih =>
    rw [captureAfter?, allCapturesAfter, List.head?_append, List.head?_map, end?_eq_head?, ← ih]
    cases (a.ends (.between last (x :: t))).head? with
    | none => rfl
    | some d => rfl

theorem capture?_eq_head? (a : Pattern) (t : Text) : a.capture? t = (a.allCaptures t).head? :=
  captureAfter?_eq_head? a none t

theorem mem_allCaptures_of_capture? {a : Pattern} {t found : Text} (h : a.capture? t = some found) :
    found ∈ a.allCaptures t := by
  rw [capture?_eq_head?] at h
  exact List.mem_of_head? h

end CanvasLift.Pattern
