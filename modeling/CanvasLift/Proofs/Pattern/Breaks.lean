import CanvasLift.Proofs.Pattern.Boundary
import CanvasLift.Proofs.Text.Cuts

/-!
Patterns that do not count line breaks in a row. The main statements are that such a pattern occurs in
a text exactly where it occurs in the text with an empty line more, and what an empty line brings in
where a pattern waits for a blank character.
-/

namespace CanvasLift

theorem lastOver_double (last : Option Char) (u v : Text) (x : Char) :
    lastOver last (u ++ x :: x :: v) = lastOver last (u ++ x :: v) := by
  simp only [lastOver_append, lastOver_cons]

namespace Pattern

variable {a : Pattern} {parts : List Pattern} {last last' : Option Char}
  {P : Text → Prop} {u v z t taken rest rest' : Text} {x : Char}

theorem Takes.congr_rest (h : a.Takes last taken rest) (hrest : rest'.head? = rest.head?) :
    a.Takes last taken rest' := by
  induction a generalizing last taken rest rest' with
  | empty | one p | many p => exact h
  | between p => exact ⟨h.1, hrest ▸ h.2⟩
  | seq a b iha ihb =>
    obtain ⟨u, v, rfl, hu, hv⟩ := h
    have hhead : (v ++ rest').head? = (v ++ rest).head? := by
      rw [List.head?_append, List.head?_append, hrest]
    exact ⟨u, v, rfl, iha hu hhead, ihb hv hrest⟩
  | alt a b iha ihb => exact h.imp (iha · hrest) (ihb · hrest)
  | capture a iha => exact iha h hrest

theorem Takes.not_mem_of_avoids (ha : a.avoids x = true) (h : a.Takes last taken rest) :
    x ∉ taken := by
  induction a generalizing last taken rest with
  | empty =>
    rw [show taken = [] from h]
    exact List.not_mem_nil
  | one p =>
    obtain ⟨y, rfl, hy⟩ := h
    intro hmem
    rw [← List.mem_singleton.1 hmem] at hy
    simp [avoids, hy] at ha
  | many p =>
    intro hmem
    simp [avoids, h x hmem] at ha
  | between p => cases ha
  | seq a b iha ihb =>
    obtain ⟨ha, hb⟩ := Bool.and_eq_true_iff.1 ha
    obtain ⟨u, v, rfl, hu, hv⟩ := h
    exact List.not_mem_append (iha ha hu) (ihb hb hv)
  | alt a b iha ihb =>
    obtain ⟨ha, hb⟩ := Bool.and_eq_true_iff.1 ha
    exact h.elim (iha ha) (ihb hb)
  | capture a iha => exact iha ha h

/-- The pattern does not look at what stands before it. -/
def LooksAhead (a : Pattern) : Prop :=
  ∀ last last' taken rest, a.Takes last taken rest → a.Takes last' taken rest

theorem looksAhead_of_isPlain (ha : a.isPlain = true) : a.LooksAhead :=
  fun _ _ _ _ h ↦ h.of_isPlain ha

theorem looksAhead_lineEnd : lineEnd.LooksAhead := fun _ _ _ _ h ↦ h

theorem LooksAhead.cons (ha : a.LooksAhead) (hparts : (chain parts).LooksAhead) :
    (chain (a :: parts)).LooksAhead := by
  intro last last' taken rest h
  obtain ⟨u, v, rfl, hu, hv⟩ := h
  exact ⟨u, v, rfl, ha _ _ _ _ hu, hparts _ _ _ _ hv⟩

theorem LooksAhead.occursIn_append_left (ha : a.LooksAhead) (h : a.occursIn t = true) (u : Text) :
    a.occursIn (u ++ t) = true := by
  obtain ⟨front, taken, rest, rfl, htakes⟩ := (occursIn_iff a t).1 h
  exact (occursIn_iff a _).2 ⟨u ++ front, taken, rest, by simp, ha _ _ _ _ htakes⟩

theorem LooksAhead.singleton (ha : a.LooksAhead) : (chain [a]).LooksAhead :=
  ha.cons fun _ _ _ _ h ↦ h

/-- The pattern takes something that starts with a character other than a line break. -/
def IsFirm (a : Pattern) : Prop :=
  ∀ last taken rest, a.Takes last taken rest → ∃ c ∈ taken.head?, c ≠ '\n'

theorem isFirm_run {p : Char → Bool} (hp : p '\n' = false) : (run p).IsFirm := by
  intro last taken rest h
  obtain ⟨hne, hall⟩ := takes_run.1 h
  obtain ⟨c, taken, rfl⟩ := List.exists_cons_of_ne_nil hne
  refine ⟨c, rfl, fun heq ↦ ?_⟩
  rw [heq] at hall
  rw [hall '\n' List.mem_cons_self] at hp
  cases hp

theorem isFirm_literal {w : Text} (hw : w.head?.any (· ≠ '\n') = true) : (literal w).IsFirm := by
  intro last taken rest h
  obtain ⟨c, hc, hne⟩ := (Option.any_eq_true _ _).1 hw
  rw [takes_literal.1 h]
  exact ⟨c, hc, of_decide_eq_true hne⟩

theorem isFirm_one {p : Char → Bool} (hp : p '\n' = false) : (one p).IsFirm := by
  intro last taken rest h
  obtain ⟨c, rfl, hc⟩ := h
  refine ⟨c, rfl, fun heq ↦ ?_⟩
  rw [heq, hp] at hc
  cases hc

theorem IsFirm.cons (ha : a.IsFirm) : (chain (a :: parts)).IsFirm := by
  intro last taken rest h
  obtain ⟨u, v, rfl, hu, -⟩ := h
  obtain ⟨c, hc, hne⟩ := ha _ _ _ hu
  refine ⟨c, ?_, hne⟩
  rw [List.head?_append, hc]
  rfl

/-- A second line break right after one can be put into what the pattern takes, and taken away. -/
structure IsElastic (a : Pattern) : Prop where
  grow : ∀ {last u v rest}, a.Takes last (u ++ '\n' :: v) rest →
    a.Takes last (u ++ '\n' :: '\n' :: v) rest
  shrink : ∀ {last u v rest}, a.Takes last (u ++ '\n' :: '\n' :: v) rest →
    a.Takes last (u ++ '\n' :: v) rest

theorem isElastic_of_avoids (ha : a.avoids '\n' = true) : a.IsElastic where
  grow h := absurd (by simp) (h.not_mem_of_avoids ha)
  shrink h := absurd (by simp) (h.not_mem_of_avoids ha)

theorem isElastic_of_takes_nil (ha : ∀ last taken rest, a.Takes last taken rest → taken = []) :
    a.IsElastic where
  grow h := absurd (ha _ _ _ h) (by simp)
  shrink h := absurd (ha _ _ _ h) (by simp)

theorem isElastic_many (p : Char → Bool) : (many p).IsElastic where
  grow h c hc := h c (by simpa using hc)
  shrink h c hc := h c (by simpa using hc)

theorem isElastic_run (p : Char → Bool) : (run p).IsElastic where
  grow h := takes_run.2 ⟨by simp, fun c hc ↦ (takes_run.1 h).2 c (by simpa using hc)⟩
  shrink h := takes_run.2 ⟨by simp, fun c hc ↦ (takes_run.1 h).2 c (by simpa using hc)⟩

/-- No two line breaks in a row are parted where a part that ends without one, or one that starts
without one, comes next to another. -/
theorem IsElastic.cons (ha : a.IsElastic) (hparts : (chain parts).IsElastic)
    (hmeet : (∀ last u rest, ¬ a.Takes last (u ++ ['\n']) rest) ∨ (chain parts).IsFirm) :
    (chain (a :: parts)).IsElastic where
  grow h := by
    obtain ⟨x, y, heq, hx, hy⟩ := h
    obtain ⟨z, rfl, rfl⟩ | ⟨z, rfl, rfl⟩ := Text.append_cons_eq_append_iff.1 heq
    · rw [← lastOver_double] at hy
      exact ⟨_, y, by simp, ha.grow hx, hy⟩
    · exact ⟨x, _, by simp, hx.congr_rest (by simp), hparts.grow hy⟩
  shrink h := by
    obtain ⟨x, y, heq, hx, hy⟩ := h
    obtain ⟨z, rfl, hz⟩ | ⟨z, rfl, rfl⟩ := Text.append_cons_eq_append_iff.1 heq
    · cases z with
      | cons c z =>
        obtain ⟨rfl, rfl⟩ := List.cons.inj hz
        rw [lastOver_double] at hy
        exact ⟨_, y, by simp, ha.shrink hx, hy⟩
      | nil =>
        obtain rfl : '\n' :: _ = y := hz
        obtain hend | hfirm := hmeet
        · exact absurd hx (hend _ _ _)
        · obtain ⟨c, hc, hne⟩ := hfirm _ _ _ hy
          exact absurd (Option.some.inj hc).symm hne
    · exact ⟨x, _, by simp, hx.congr_rest (by simp), hparts.shrink hy⟩

theorem IsElastic.many_cons {p : Char → Bool} (hparts : (chain parts).IsElastic)
    (hahead : (chain parts).LooksAhead) : (chain (many p :: parts)).IsElastic where
  grow h := by
    obtain ⟨x, y, heq, hx, hy⟩ := h
    obtain ⟨z, rfl, rfl⟩ | ⟨z, rfl, rfl⟩ := Text.append_cons_eq_append_iff.1 heq
    · rw [← lastOver_double] at hy
      exact ⟨_, y, by simp, (isElastic_many p).grow hx, hy⟩
    · exact ⟨x, _, by simp, hx.congr_rest (by simp), hparts.grow hy⟩
  shrink h := by
    obtain ⟨x, y, heq, hx, hy⟩ := h
    obtain ⟨z, rfl, hz⟩ | ⟨z, rfl, rfl⟩ := Text.append_cons_eq_append_iff.1 heq
    · cases z with
      | cons c z =>
        obtain ⟨rfl, rfl⟩ := List.cons.inj hz
        rw [lastOver_double] at hy
        exact ⟨_, y, by simp, (isElastic_many p).shrink hx, hy⟩
      | nil =>
        obtain rfl : '\n' :: _ = y := hz
        exact ⟨_, _, rfl, fun c hc ↦ hx c (List.mem_append_left _ hc), hahead _ _ _ _ hy⟩
    · exact ⟨x, _, by simp, hx.congr_rest (by simp), hparts.shrink hy⟩

theorem isElastic_nil : (chain []).IsElastic := isElastic_of_takes_nil fun _ _ _ h ↦ h

theorem takes_chain_singleton_iff {last : Option Char} {taken rest : Text} :
    (chain [a]).Takes last taken rest ↔ a.Takes last taken rest := by
  refine ⟨fun h ↦ ?_, takes_chain_singleton⟩
  obtain ⟨taken, _, rfl, h, rfl⟩ := h
  rw [List.append_nil]
  exact h

theorem IsElastic.singleton (ha : a.IsElastic) : (chain [a]).IsElastic where
  grow h := takes_chain_singleton (ha.grow (takes_chain_singleton_iff.1 h))
  shrink h := takes_chain_singleton (ha.shrink (takes_chain_singleton_iff.1 h))

theorem IsElastic.avoids_cons (ha : a.avoids '\n' = true) (hparts : (chain parts).IsElastic) :
    (chain (a :: parts)).IsElastic :=
  (isElastic_of_avoids ha).cons hparts (.inl fun _ _ _ h ↦ absurd (by simp) (h.not_mem_of_avoids ha))

/-- A pattern for which line breaks in a row count like one, and the ends of a text like a line
break. -/
structure IgnoresBlankLines (a : Pattern) : Prop extends a.IsElastic where
  ne_nil : ∀ {last rest}, ¬ a.Takes last [] rest
  start_iff : ∀ {taken rest}, a.Takes (some '\n') taken rest ↔ a.Takes none taken rest
  start : ∀ {taken rest}, a.Takes (some '\n') ('\n' :: taken) rest → a.Takes (some '\n') taken rest
  stop_iff : ∀ {last taken}, a.Takes last taken ['\n'] ↔ a.Takes last taken []
  stop : ∀ {last taken}, a.Takes last (taken ++ ['\n']) ['\n'] → a.Takes last taken ['\n']

theorem ignoresBlankLines_of_avoids (ha : a.avoids '\n' = true)
    (hne : ∀ last rest, ¬ a.Takes last [] rest) : a.IgnoresBlankLines where
  toIsElastic := isElastic_of_avoids ha
  ne_nil := hne _ _
  start_iff := ⟨.of_isPlain (isPlain_of_avoids ha), .of_isPlain (isPlain_of_avoids ha)⟩
  start h := absurd (by simp) (h.not_mem_of_avoids ha)
  stop_iff := ⟨.of_isPlain (isPlain_of_avoids ha), .of_isPlain (isPlain_of_avoids ha)⟩
  stop h := absurd (by simp) (h.not_mem_of_avoids ha)

namespace IgnoresBlankLines

variable (ha : a.IgnoresBlankLines)

include ha

theorem of_start (h : a.Takes (some '\n') ('\n' :: taken) rest) :
    taken ≠ [] ∧ a.Takes (some '\n') taken rest := by
  have htakes := ha.start h
  refine ⟨?_, htakes⟩
  rintro rfl
  exact ha.ne_nil htakes

theorem of_stop (h : a.Takes last (taken ++ ['\n']) ('\n' :: rest)) :
    a.Takes last taken ('\n' :: rest) := by
  have hbreak : a.Takes last (taken ++ ['\n']) ['\n'] := h.congr_rest rfl
  exact (ha.stop hbreak).congr_rest rfl

theorem occursIn_double_iff :
    a.occursIn (u ++ '\n' :: '\n' :: v) = true ↔ a.occursIn (u ++ '\n' :: v) = true := by
  rw [occursIn_iff, occursIn_iff]
  constructor
  · intro h
    obtain ⟨front, taken, rest, heq, htakes⟩ := h
    obtain ⟨z, rfl, hz⟩ | ⟨z, rfl, hz⟩ := Text.append_cons_eq_append_iff.1 heq
    · cases z with
      | nil =>
        cases taken with
        | nil => exact absurd htakes ha.ne_nil
        | cons c taken =>
          obtain ⟨rfl, rfl⟩ := List.cons.inj hz
          rw [List.getLast?_concat] at htakes
          refine ⟨u ++ ['\n'], taken, rest, by simp, ?_⟩
          rw [List.getLast?_concat]
          exact (ha.of_start htakes).2
      | cons c z =>
        obtain ⟨rfl, rfl⟩ := List.cons.inj hz
        refine ⟨u ++ '\n' :: z, taken, rest, by simp, ?_⟩
        rw [← lastOver_none, lastOver_double, lastOver_none] at htakes
        exact htakes
    · obtain ⟨y, rfl, hy⟩ | ⟨y, rfl, rfl⟩ := Text.append_cons_eq_append_iff.1 hz.symm
      · cases y with
        | nil =>
          obtain rfl : '\n' :: v = rest := hy
          exact ⟨front, z, '\n' :: v, by simp, ha.of_stop htakes⟩
        | cons c y =>
          obtain ⟨rfl, rfl⟩ := List.cons.inj hy
          exact ⟨front, _, rest, by simp, ha.shrink htakes⟩
      · exact ⟨front, taken, y ++ '\n' :: v, by simp, htakes.congr_rest (by simp)⟩
  · intro h
    obtain ⟨front, taken, rest, heq, htakes⟩ := h
    obtain ⟨z, rfl, rfl⟩ | ⟨z, rfl, hz⟩ := Text.append_cons_eq_append_iff.1 heq
    · refine ⟨u ++ '\n' :: '\n' :: z, taken, rest, by simp, ?_⟩
      rw [← lastOver_none, lastOver_double, lastOver_none]
      exact htakes
    · obtain ⟨y, rfl, rfl⟩ | ⟨y, rfl, rfl⟩ := Text.append_cons_eq_append_iff.1 hz.symm
      · exact ⟨front, _, rest, by simp, ha.grow htakes⟩
      · exact ⟨front, taken, y ++ '\n' :: '\n' :: v, by simp, htakes.congr_rest (by simp)⟩

theorem occursIn_cons_iff : a.occursIn ('\n' :: t) = true ↔ a.occursIn t = true := by
  rw [occursIn_iff, occursIn_iff]
  constructor
  · intro h
    obtain ⟨front, taken, rest, heq, htakes⟩ := h
    cases front with
    | nil =>
      cases taken with
      | nil => exact absurd htakes ha.ne_nil
      | cons c taken =>
        obtain ⟨rfl, rfl⟩ := List.cons.inj heq
        exact ⟨[], taken, rest, rfl, ha.start_iff.1 (ha.of_start (ha.start_iff.2 htakes)).2⟩
    | cons c front =>
      obtain ⟨rfl, rfl⟩ := List.cons.inj heq
      refine ⟨front, taken, rest, rfl, ?_⟩
      cases front with
      | nil => exact ha.start_iff.1 htakes
      | cons c front => exact htakes
  · intro h
    obtain ⟨front, taken, rest, rfl, htakes⟩ := h
    refine ⟨'\n' :: front, taken, rest, rfl, ?_⟩
    cases front with
    | nil => exact ha.start_iff.2 htakes
    | cons c front => exact htakes

theorem occursIn_concat_iff : a.occursIn (t ++ ['\n']) = true ↔ a.occursIn t = true := by
  rw [occursIn_iff, occursIn_iff]
  constructor
  · intro h
    obtain ⟨front, taken, rest, heq, htakes⟩ := h
    obtain rfl | ⟨rest, c, rfl⟩ := List.eq_nil_or_concat rest
    · rw [List.append_nil] at heq
      obtain rfl | ⟨taken, c, rfl⟩ := List.eq_nil_or_concat taken
      · exact absurd htakes ha.ne_nil
      · rw [List.concat_eq_append, ← List.append_assoc] at heq
        obtain ⟨rfl, hc⟩ := List.append_inj' heq rfl
        obtain rfl := List.cons.inj hc |>.1
        refine ⟨front, taken, [], by simp, ha.stop_iff.1 (ha.stop (ha.stop_iff.2 ?_))⟩
        rwa [List.concat_eq_append] at htakes
    · rw [List.concat_eq_append, ← List.append_assoc, ← List.append_assoc] at heq
      obtain ⟨rfl, hc⟩ := List.append_inj' heq rfl
      obtain rfl := List.cons.inj hc |>.1
      refine ⟨front, taken, rest, by simp, ?_⟩
      cases rest with
      | nil => exact ha.stop_iff.1 htakes
      | cons c rest => exact htakes.congr_rest rfl
  · intro h
    obtain ⟨front, taken, rest, rfl, htakes⟩ := h
    refine ⟨front, taken, rest ++ ['\n'], by simp, ?_⟩
    cases rest with
    | nil => exact ha.stop_iff.2 htakes
    | cons c rest => exact htakes.congr_rest rfl

theorem occursIn_insert_iff (h : u = [] ∨ u.getLast? = some '\n' ∨ v = []) :
    a.occursIn (u ++ '\n' :: v) = true ↔ a.occursIn (u ++ v) = true := by
  obtain rfl | hlast | rfl := h
  · exact ha.occursIn_cons_iff
  · obtain ⟨u, rfl⟩ := List.getLast?_eq_some_iff.1 hlast
    rw [List.append_assoc, List.append_assoc]
    exact ha.occursIn_double_iff
  · rw [List.append_nil]
    exact ha.occursIn_concat_iff

end IgnoresBlankLines

/-- A pattern that occurs where a blank character follows a text of a certain kind, and the kind shows
on the last line before that character. -/
structure WaitsForBlank (a : Pattern) (P : Text → Prop) : Prop where
  occursIn_iff : ∀ t, a.occursIn t = true ↔
    ∃ u b v, t = u ++ b :: v ∧ P u ∧ Text.isBlank b = true
  after_break_iff : ∀ {u z}, z ≠ [] → (P (u ++ '\n' :: z) ↔ P z)
  not_nil : ¬ P []
  not_break : ¬ P ['\n']

namespace WaitsForBlank

variable (ha : a.WaitsForBlank P)

include ha

theorem insert_iff (hu : u = [] ∨ u.getLast? = some '\n') (hz : z ≠ []) :
    P (u ++ '\n' :: z) ↔ P (u ++ z) := by
  rw [ha.after_break_iff hz]
  obtain rfl | hlast := hu
  · exact Iff.rfl
  · obtain ⟨u, rfl⟩ := List.getLast?_eq_some_iff.1 hlast
    rw [List.append_assoc]
    exact (ha.after_break_iff hz).symm

theorem not_break_of_boundary (hu : u = [] ∨ u.getLast? = some '\n') : ¬ P (u ++ ['\n']) := by
  obtain rfl | hlast := hu
  · exact ha.not_break
  · obtain ⟨u, rfl⟩ := List.getLast?_eq_some_iff.1 hlast
    rw [List.append_assoc]
    exact fun h ↦ ha.not_break ((ha.after_break_iff (List.cons_ne_nil _ _)).1 h)

theorem occursIn_insert_iff (hboundary : u = [] ∨ u.getLast? = some '\n' ∨ v = []) :
    a.occursIn (u ++ '\n' :: v) = true ↔ a.occursIn (u ++ v) = true ∨ P u := by
  rw [ha.occursIn_iff, ha.occursIn_iff]
  have hstart : v ≠ [] → u = [] ∨ u.getLast? = some '\n' := by
    intro hv
    simpa [hv] using hboundary
  constructor
  · intro h
    obtain ⟨t, b, back, heq, ht, hb⟩ := h
    obtain ⟨z, rfl, rfl⟩ | ⟨z, rfl, hz⟩ := Text.append_cons_eq_append_iff.1 heq
    · have hu := hstart (by simp)
      have hne : z ≠ [] := by
        intro hz
        rw [hz] at ht
        exact ha.not_break_of_boundary hu ht
      exact .inl ⟨u ++ z, b, back, by simp, (ha.insert_iff hu hne).1 ht, hb⟩
    · cases z with
      | nil =>
        rw [List.append_nil]
        exact .inr ht
      | cons c z =>
        obtain ⟨rfl, rfl⟩ := List.cons.inj hz
        exact .inl ⟨t, b, z ++ v, by simp, ht, hb⟩
  · intro h
    have hnext : P u → ∃ t b back, u ++ '\n' :: v = t ++ b :: back ∧ P t ∧ Text.isBlank b = true :=
      fun hu ↦ ⟨u, '\n', v, rfl, hu, by decide⟩
    obtain ⟨t, b, back, heq, ht, hb⟩ | hu := h
    · obtain ⟨z, rfl, rfl⟩ | ⟨z, rfl, hz⟩ := List.append_eq_append_iff.1 heq
      · by_cases hne : z = []
        · rw [hne, List.append_nil] at ht
          exact hnext ht
        · have hu := hstart (by simp)
          exact ⟨u ++ '\n' :: z, b, back, by simp, (ha.insert_iff hu hne).2 ht, hb⟩
      · cases z with
        | nil => exact hnext ((List.append_nil t).symm ▸ ht)
        | cons c z =>
          obtain ⟨rfl, rfl⟩ := List.cons.inj hz
          exact ⟨t, b, z ++ '\n' :: v, by simp, ht, hb⟩
    · exact hnext hu

end WaitsForBlank

end Pattern

end CanvasLift
