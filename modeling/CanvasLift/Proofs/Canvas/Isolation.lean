import CanvasLift.Proofs.Canvas.Arm
import CanvasLift.Proofs.Pattern.Capture

namespace CanvasLift.Canvas

open Pattern

theorem findIdx?_eq_some_iff_getElem? {α : Type} {p : α → Bool} {xs : List α} {i : Nat} :
    xs.findIdx? p = some i ↔
      (∃ x, xs[i]? = some x ∧ p x = true) ∧ ∀ j x, j < i → xs[j]? = some x → p x = false := by
  rw [List.findIdx?_eq_some_iff_getElem]
  constructor
  · intro h
    obtain ⟨hi, hp, hbefore⟩ := h
    refine ⟨⟨xs[i], List.getElem?_eq_getElem hi, hp⟩, fun j x hj hx ↦ ?_⟩
    obtain ⟨hlt, rfl⟩ := List.getElem?_eq_some_iff.1 hx
    exact Bool.eq_false_iff.2 (hbefore j hj)
  · intro h
    obtain ⟨⟨x, hx, hp⟩, hbefore⟩ := h
    obtain ⟨hi, rfl⟩ := List.getElem?_eq_some_iff.1 hx
    refine ⟨hi, hp, fun j hj hpj ↦ ?_⟩
    have hfalse := hbefore j xs[j] hj (List.getElem?_eq_getElem _)
    rw [hpj] at hfalse
    cases hfalse

namespace Span

/-- The span goes from the first line that `p` holds of to the first later one that hands over. -/
structure Bounds (p : Text → Prop) (lines : List Text) (s : Span) : Prop where
  opens : ∃ line, lines[s.start]? = some line ∧ p line
  above : ∀ i line, i < s.start → lines[i]? = some line → ¬ p line
  start_lt_stop : s.start < s.stop
  closes : ∃ line, lines[s.stop]? = some line ∧ handOver.opens line = true
  within : ∀ i line, s.start < i → i < s.stop → lines[i]? = some line → handOver.opens line = false

/-- The answer for the lines that `p` holds of: the span from the first of them to the first later
one that hands over, and nothing exactly where one of the two is missing. -/
structure Answers (p : Text → Prop) (lines : List Text) (answer : Option Span) : Prop where
  some_iff : ∀ s, answer = some s ↔ s.Bounds p lines
  none_iff : answer = none ↔ ¬ ∃ (i j : Nat) (line line' : Text), i < j ∧ lines[i]? = some line ∧ p line ∧
    lines[j]? = some line' ∧ handOver.opens line' = true

def between? (p : Text → Bool) (lines : List Text) : Option Span := do
  let start ← lines.findIdx? p
  let length ← (lines.drop (start + 1)).findIdx? handOver.opens
  return ⟨start, start + 1 + length⟩

variable {p q : Text → Bool} {lines : List Text} {s t : Span} {id other : Text}

theorem between?_eq_some_iff : between? p lines = some s ↔ s.Bounds (p · = true) lines := by
  rw [between?]
  simp only [Option.bind_eq_bind, Option.bind_eq_some_iff, findIdx?_eq_some_iff_getElem?,
    List.getElem?_drop, Option.pure_def, Option.some.injEq]
  constructor
  · intro h
    obtain ⟨start, ⟨hopens, habove⟩, length, ⟨hcloses, hwithin⟩, rfl⟩ := h
    refine ⟨hopens, fun i line hi hline ↦ ?_, by dsimp only; omega, hcloses,
      fun i line hi hi' hline ↦ ?_⟩
    · rw [habove i line hi hline]
      exact Bool.false_ne_true
    · dsimp only at hi hi'
      refine hwithin (i - (start + 1)) line (by omega) ?_
      rwa [Nat.add_sub_cancel' hi]
  · intro h
    have hstop : s.start + 1 + (s.stop - (s.start + 1)) = s.stop :=
      Nat.add_sub_cancel' h.start_lt_stop
    refine ⟨s.start, ⟨h.opens, fun i line hi hline ↦ ?_⟩, s.stop - (s.start + 1), ⟨?_, ?_⟩, ?_⟩
    · exact Bool.eq_false_iff.2 (h.above i line hi hline)
    · rw [hstop]
      exact h.closes
    · intro i line hi hline
      exact h.within _ line (by omega) (by omega) hline
    · rw [hstop]

theorem between?_eq_none_iff :
    between? p lines = none ↔ ¬ ∃ (i j : Nat) (line line' : Text), i < j ∧ lines[i]? = some line ∧
      p line = true ∧ lines[j]? = some line' ∧ handOver.opens line' = true := by
  constructor
  · intro h hex
    obtain ⟨i, j, line, line', hij, hline, hp, hline', hopens⟩ := hex
    obtain ⟨start, hstart⟩ : ∃ start, lines.findIdx? p = some start := by
      rw [← Option.isSome_iff_exists, List.findIdx?_isSome, List.any_eq_true]
      exact ⟨line, List.mem_of_getElem? hline, hp⟩
    -- The first line that `p` holds of is not below line `i`, so line `j` still comes after it.
    have hle : start ≤ i := by
      apply Nat.le_of_not_lt
      intro hlt
      have hfalse := (findIdx?_eq_some_iff_getElem?.1 hstart).2 i line hlt hline
      rw [hp] at hfalse
      cases hfalse
    rw [between?, hstart] at h
    simp only [Option.bind_eq_bind, Option.bind_some, Option.bind_eq_none_iff, Option.pure_def,
      reduceCtorEq, imp_false, ← Option.eq_none_iff_forall_ne_some] at h
    have hlater := List.findIdx?_eq_none_iff.1 h line' (List.mem_of_getElem? (i := j - (start + 1)) ?_)
    · rw [hopens] at hlater
      cases hlater
    · rw [List.getElem?_drop, Nat.add_sub_cancel' (by omega), hline']
  · intro h
    cases hs : between? p lines with
    | none => rfl
    | some s =>
      have hbounds := between?_eq_some_iff.1 hs
      obtain ⟨line, hline, hp⟩ := hbounds.opens
      obtain ⟨line', hline', hopens⟩ := hbounds.closes
      exact absurd ⟨_, _, line, line', hbounds.start_lt_stop, hline, hp, hline', hopens⟩ h

theorem answers_between? (p : Text → Bool) (lines : List Text) :
    Answers (p · = true) lines (between? p lines) :=
  ⟨fun _ ↦ between?_eq_some_iff, between?_eq_none_iff⟩

/-- Whether the first guard on a line is one for `id`. -/
def opensWith (id line : Text) : Bool := guard.capture? line = some id

/-- Whether there is a guard for `id` on a line, be it behind others. -/
def guards (id line : Text) : Bool := (guard.allCaptures line).contains id

theorem guards_iff {line : Text} : guards id line = true ↔ id ∈ guard.allCaptures line :=
  List.contains_iff_mem

theorem guards_of_opensWith {line : Text} (h : opensWith id line = true) : guards id line = true :=
  guards_iff.2 (mem_allCaptures_of_capture? (of_decide_eq_true h))

theorem answers_locate? (lines : List Text) (id : Text) :
    Answers (opensWith id · = true) lines (locate? lines id) :=
  answers_between? (opensWith id) lines

/-- An arm is found from the first line whose first guard is one for the type. It is the arm of the
first guard for the type exactly where none for another type stands before that on its line. -/
theorem locate?_answers_iff (lines : List Text) (id : Text) :
    Answers (opensWith id · = true) lines (locate? lines id) ∧
      (Answers (guards id · = true) lines (locate? lines id) ↔
        ∀ s line, Bounds (guards id · = true) lines s → lines[s.start]? = some line →
          opensWith id line = true) := by
  refine ⟨answers_locate? lines id, ?_, ?_⟩
  · intro h s line hs hline
    have hlocate := (answers_locate? lines id).some_iff s
    obtain ⟨line', hline', hopens⟩ := (hlocate.1 ((h.some_iff s).2 hs)).opens
    rw [hline] at hline'
    obtain rfl := Option.some.inj hline'
    exact hopens
  · intro h
    have hanswer := answers_between? (guards id) lines
    have heq : locate? lines id = between? (guards id) lines := by
      cases hs : between? (guards id) lines with
      | some s =>
        have hbounds := between?_eq_some_iff.1 hs
        obtain ⟨line, hline, -⟩ := hbounds.opens
        refine ((answers_locate? lines id).some_iff s).2 ⟨⟨line, hline, h s line hbounds hline⟩, ?_,
          hbounds.start_lt_stop, hbounds.closes, hbounds.within⟩
        intro i line hi hline hopens
        exact hbounds.above i line hi hline (guards_of_opensWith hopens)
      | none =>
        refine (answers_locate? lines id).none_iff.2 fun hex ↦ ?_
        obtain ⟨i, j, line, line', hij, hline, hopens, hcloses⟩ := hex
        exact between?_eq_none_iff.1 hs
          ⟨i, j, line, line', hij, hline, guards_of_opensWith hopens, hcloses⟩
    rw [heq]
    exact hanswer

/-- Two arms on one line: the second of them opens behind the guard of the first. -/
def oneLine : List Text :=
  ["\x7bel.type === \"a\" ? (<A />) : el.type === \"b\" ? (", "  <B />", ") : (", "  null", ")\x7d"]

theorem second_guard_overlooked :
    ¬ Answers (guards "b" · = true) oneLine (locate? oneLine "b") := by
  intro h
  have hfound := (answers_between? (guards "b") oneLine).some_iff ⟨0, 2⟩
  have hbetween : between? (guards "b") oneLine = some ⟨0, 2⟩ := by decide
  have hnone : locate? oneLine "b" = none := by decide
  have hsome := (h.some_iff ⟨0, 2⟩).2 (hfound.1 hbetween)
  rw [hnone] at hsome
  cases hsome

theorem mem_payload_iff {line : Text} :
    line ∈ s.payload lines ↔ ∃ i, s.start < i ∧ i < s.stop ∧ lines[i]? = some line := by
  rw [payload, List.mem_iff_getElem?]
  constructor
  · intro h
    obtain ⟨k, hk⟩ := h
    rw [List.getElem?_take, List.getElem?_drop] at hk
    split at hk
    · exact ⟨s.start + 1 + k, by omega, by omega, hk⟩
    · cases hk
  · intro h
    obtain ⟨i, hi, hi', hline⟩ := h
    refine ⟨i - (s.start + 1), ?_⟩
    rwa [List.getElem?_take_of_lt (by omega), List.getElem?_drop, Nat.add_sub_cancel' hi]

/-- Behind the line `start`, some line hands over before a guard for a type other than `id` opens, or
right where it does. -/
def HandsOverFirst (lines : List Text) (start : Nat) (id : Text) : Prop :=
  ∀ i line other, start < i → lines[i]? = some line → other ∈ guard.allCaptures line → other ≠ id →
    ∃ j line', start < j ∧ j ≤ i ∧ lines[j]? = some line' ∧ handOver.opens line' = true

/-- The spans have no line in common, apart from the last of the one being the first of the other. -/
def Apart (s t : Span) : Prop := s.stop ≤ t.start ∨ t.stop ≤ s.start

/-- The span `t` starts behind the first line of `s`, and both end on the same line. -/
def Within (t s : Span) : Prop := s.start < t.start ∧ t.start < s.stop ∧ t.stop = s.stop

theorem Bounds.within_of_start {p q : Text → Prop} (hs : s.Bounds p lines) (ht : t.Bounds q lines)
    (hlt : s.start < t.start) (hlt' : t.start < s.stop) : t.Within s := by
  have hstart := ht.start_lt_stop
  obtain ⟨line, hline, hopens⟩ := ht.closes
  obtain ⟨line', hline', hopens'⟩ := hs.closes
  refine ⟨hlt, hlt', Nat.le_antisymm ?_ ?_⟩
  · apply Nat.le_of_not_lt
    intro h
    rw [ht.within s.stop line' hlt' h hline'] at hopens'
    cases hopens'
  · apply Nat.le_of_not_lt
    intro h
    rw [hs.within t.stop line (by omega) h hline] at hopens
    cases hopens

theorem Bounds.apart_or_within {p q : Text → Prop} (hs : s.Bounds p lines) (ht : t.Bounds q lines)
    (hne : s.start ≠ t.start) : Apart s t ∨ t.Within s ∨ s.Within t := by
  by_cases happart : Apart s t
  · exact .inl happart
  · rw [Apart, not_or, Nat.not_le, Nat.not_le] at happart
    obtain ⟨hlt, hlt'⟩ := happart
    rcases Nat.lt_or_gt_of_ne hne with h | h
    · exact .inr (.inl (hs.within_of_start ht h hlt))
    · exact .inr (.inr (ht.within_of_start hs h hlt'))

theorem start_ne_start (hs : s.Bounds (opensWith id · = true) lines)
    (ht : t.Bounds (opensWith other · = true) lines) (hne : other ≠ id) : s.start ≠ t.start := by
  obtain ⟨line, hline, hid⟩ := hs.opens
  obtain ⟨line', hline', hother⟩ := ht.opens
  intro heq
  rw [heq, hline'] at hline
  obtain rfl := Option.some.inj hline
  have hfound := (of_decide_eq_true hother).symm.trans (of_decide_eq_true hid)
  exact hne (Option.some.inj hfound)

theorem Bounds.guards_iff_handsOverFirst {p : Text → Prop} (hs : s.Bounds p lines) :
    (∀ line ∈ s.payload lines, ∀ other ∈ guard.allCaptures line, other = id) ↔
      HandsOverFirst lines s.start id := by
  constructor
  · intro h i line other hi hline hother hne
    obtain ⟨last, hlast, hopens⟩ := hs.closes
    refine ⟨s.stop, last, hs.start_lt_stop, ?_, hlast, hopens⟩
    apply Nat.le_of_not_lt
    intro hlt
    exact hne (h line (mem_payload_iff.2 ⟨i, hi, hlt, hline⟩) other hother)
  · intro h line hmem other hother
    obtain ⟨i, hi, hi', hline⟩ := mem_payload_iff.1 hmem
    apply Decidable.byContradiction
    intro hne
    obtain ⟨j, line', hj, hji, hline', hopens⟩ := h i line other hi hline hother hne
    rw [hs.within j line' hj (by omega) hline'] at hopens
    cases hopens

/-- No line of a payload hands over. It has a guard for another type exactly where that opens before
the arm hands over, and only then can the arm reach over the one of the other type: both end on the
same line. -/
theorem arms_isolated_iff (h : locate? lines id = some s) :
    (∀ line ∈ s.payload lines, handOver.opens line = false) ∧
      ((∀ line ∈ s.payload lines, ∀ other ∈ guard.allCaptures line, other = id) ↔
        HandsOverFirst lines s.start id) ∧
      ∀ other t, other ≠ id → locate? lines other = some t →
        (Apart s t ∨ t.Within s ∨ s.Within t) ∧
          (HandsOverFirst lines s.start id → HandsOverFirst lines t.start other → Apart s t) := by
  have hs := ((answers_locate? lines id).some_iff s).1 h
  refine ⟨?_, hs.guards_iff_handsOverFirst, ?_⟩
  · intro line hmem
    obtain ⟨i, hi, hi', hline⟩ := mem_payload_iff.1 hmem
    exact hs.within i line hi hi' hline
  · intro other t hne hother
    have ht := ((answers_locate? lines other).some_iff t).1 hother
    have hcases := hs.apart_or_within ht (start_ne_start hs ht hne)
    refine ⟨hcases, fun hfirst hfirst' ↦ ?_⟩
    have hclear := hs.guards_iff_handsOverFirst.2 hfirst
    have hclear' := ht.guards_iff_handsOverFirst.2 hfirst'
    obtain ⟨line, hline, hid⟩ := hs.opens
    obtain ⟨line', hline', hid'⟩ := ht.opens
    rcases hcases with happart | ⟨hlt, hlt', -⟩ | ⟨hlt, hlt', -⟩
    · exact happart
    · have hmem := mem_payload_iff.2 ⟨t.start, hlt, hlt', hline'⟩
      exact absurd (hclear line' hmem other (guards_iff.1 (guards_of_opensWith hid'))) hne
    · have hmem := mem_payload_iff.2 ⟨s.start, hlt, hlt', hline⟩
      exact absurd (hclear' line hmem id (guards_iff.1 (guards_of_opensWith hid))).symm hne

def twoArms : List Text :=
  ["\x7bel.type === \"a\" ? (", "  <A />", ") : el.type === 'b' ? (", "  <B />", ") : ("]

theorem arms_isolated_iff_of_two :
    locate? twoArms "a" = some ⟨0, 2⟩ ∧ locate? twoArms "b" = some ⟨2, 4⟩ ∧
      HandsOverFirst twoArms 0 "a" ∧ HandsOverFirst twoArms 2 "b" ∧ Apart ⟨0, 2⟩ ⟨2, 4⟩ := by
  have ha : locate? twoArms "a" = some ⟨0, 2⟩ := by decide
  have hb : locate? twoArms "b" = some ⟨2, 4⟩ := by decide
  obtain ⟨-, hfirst, hothers⟩ := arms_isolated_iff ha
  obtain ⟨-, hfirst', -⟩ := arms_isolated_iff hb
  have hclear := hfirst.1 (by decide)
  have hclear' := hfirst'.1 (by decide)
  exact ⟨ha, hb, hclear, hclear', (hothers "b" ⟨2, 4⟩ (by decide) hb).2 hclear hclear'⟩

def nestedArms : List Text :=
  ["\x7bel.type === \"list\" ? (", "  <ul>", "    \x7bel.type === \"item\" ? (", "      <li />",
    "    ) : (", "      null", "    )\x7d", "  </ul>", ") : ("]

theorem nested_arm_in_payload :
    locate? nestedArms "list" = some ⟨0, 4⟩ ∧
      ¬ (∀ line ∈ Span.payload ⟨0, 4⟩ nestedArms, ∀ other ∈ guard.allCaptures line, other = "list") ∧
      locate? nestedArms "item" = some ⟨2, 4⟩ ∧ ¬ Apart ⟨0, 4⟩ ⟨2, 4⟩ := by
  refine ⟨by decide, by decide, by decide, ?_⟩
  rw [Apart]
  decide

end Span

end CanvasLift.Canvas
