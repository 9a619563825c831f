import CanvasLift.Pattern
import CanvasLift.Proofs.Text.Parts

/-!
What a pattern matches, without the order in which the ends of a match are tried. The main statement
is that a pattern occurs in a text exactly where the text has a part that the pattern takes.
-/

namespace CanvasLift

def lastOver (last : Option Char) (taken : Text) : Option Char := taken.getLast?.or last

theorem lastOver_append (last : Option Char) (u v : Text) :
    lastOver last (u ++ v) = lastOver (lastOver last u) v := by
  simp only [lastOver, List.getLast?_append, Option.or_assoc]

theorem lastOver_cons (last : Option Char) (x : Char) (u : Text) :
    lastOver last (x :: u) = lastOver (some x) u := by
  rw [← List.singleton_append, lastOver_append]
  rfl

theorem lastOver_none (u : Text) : lastOver none u = u.getLast? := by simp [lastOver]

namespace Cursor

/-- `d` lies `taken` further on than `c`. -/
structure Reaches (c : Cursor) (taken : Text) (d : Cursor) : Prop where
  before : d.before = taken.reverse ++ c.before
  after : c.after = taken ++ d.after

theorem Reaches.refl (c : Cursor) : c.Reaches [] c := ⟨rfl, rfl⟩

theorem Reaches.trans {c d e : Cursor} {u v : Text} (h : c.Reaches u d) (h' : d.Reaches v e) :
    c.Reaches (u ++ v) e where
  before := by rw [h'.before, h.before, List.reverse_append, List.append_assoc]
  after := by rw [h.after, h'.after, List.append_assoc]

theorem Reaches.last {c d : Cursor} {taken : Text} (h : c.Reaches taken d) :
    d.before.head? = lastOver c.before.head? taken := by
  rw [h.before, List.head?_append, List.head?_reverse, lastOver]

theorem Reaches.upTo {c d : Cursor} {taken : Text} (h : c.Reaches taken d) : c.upTo d = taken := by
  have hlen : d.offset - c.offset = taken.length := by
    simp only [offset, h.before, List.length_append, List.length_reverse]
    omega
  rw [Cursor.upTo, hlen, h.after, List.take_left]

theorem Reaches.captured {c d : Cursor} {taken : Text} (h : c.Reaches taken d) (t : Text) :
    c.Reaches taken { d with captured := t } := ⟨h.before, h.after⟩

theorem mem_runs {p : Char → Bool} {captured before after : Text} {nearer : List Cursor}
    {d : Cursor} :
    d ∈ runs p captured before after nearer ↔
      d ∈ nearer ∨ ∃ taken rest, after = taken ++ rest ∧ (∀ x ∈ taken, p x = true) ∧
        d = ⟨taken.reverse ++ before, rest, captured⟩ := by
  induction after generalizing before nearer with
  | nil =>
    rw [runs, List.mem_cons]
    constructor
    · rintro (rfl | h)
      · exact .inr ⟨[], [], rfl, by simp, rfl⟩
      · exact .inl h
    · rintro (h | ⟨taken, rest, heq, -, rfl⟩)
      · exact .inr h
      · obtain ⟨rfl, rfl⟩ := List.nil_eq_append_iff.1 heq
        exact .inl rfl
  | cons x after ih =>
    rw [runs]
    by_cases hx : p x = true
    · rw [if_pos hx, ih, List.mem_cons]
      constructor
      · rintro ((rfl | h) | ⟨taken, rest, rfl, hall, rfl⟩)
        · exact .inr ⟨[], x :: after, rfl, by simp, rfl⟩
        · exact .inl h
        · refine .inr ⟨x :: taken, rest, rfl, ?_, by simp⟩
          simpa [hx] using hall
      · rintro (h | ⟨taken, rest, heq, hall, rfl⟩)
        · exact .inl (.inr h)
        · cases taken with
          | nil =>
            obtain rfl : x :: after = rest := heq
            exact .inl (.inl rfl)
          | cons y taken =>
            obtain ⟨rfl, rfl⟩ := List.cons.inj heq
            refine .inr ⟨taken, rest, rfl, fun z hz ↦ hall z (List.mem_cons_of_mem _ hz), ?_⟩
            simp
    · rw [if_neg hx, List.mem_cons]
      constructor
      · rintro (rfl | h)
        · exact .inr ⟨[], x :: after, rfl, by simp, rfl⟩
        · exact .inl h
      · rintro (h | ⟨taken, rest, heq, hall, rfl⟩)
        · exact .inr h
        · cases taken with
          | nil =>
            obtain rfl : x :: after = rest := heq
            exact .inl rfl
          | cons y taken =>
            obtain ⟨rfl, -⟩ := List.cons.inj heq
            exact absurd (hall x List.mem_cons_self) hx

theorem head?_runs {p : Char → Bool} {captured before taken rest : Text} {nearer : List Cursor}
    (htaken : ∀ x ∈ taken, p x = true) (hrest : rest.head?.any p = false) :
    (runs p captured before (taken ++ rest) nearer).head? =
      some ⟨taken.reverse ++ before, rest, captured⟩ := by
  induction taken generalizing before nearer with
  | nil =>
    cases rest with
    | nil => rfl
    | cons x rest =>
      have hx : ¬ p x = true := by simpa using hrest
      rw [List.nil_append, runs, if_neg hx]
      rfl
  | cons x taken ih =>
    obtain ⟨hx, htaken⟩ := List.forall_mem_cons.1 htaken
    rw [List.cons_append, runs, if_pos hx, ih htaken, List.reverse_cons, List.append_assoc]
    rfl

end Cursor

namespace Pattern

/-- Whether a pattern takes `taken`, between the character `last`, if there is one, and `rest`. -/
def Takes : Pattern → (last : Option Char) → (taken rest : Text) → Prop
  | empty, _, taken, _ => taken = []
  | one p, _, taken, _ => ∃ x, taken = [x] ∧ p x = true
  | many p, _, taken, _ => ∀ x ∈ taken, p x = true
  | between p, last, taken, rest => taken = [] ∧ p last rest.head? = true
  | seq a b, last, taken, rest =>
    ∃ u v, taken = u ++ v ∧ a.Takes last u (v ++ rest) ∧ b.Takes (lastOver last u) v rest
  | alt a b, last, taken, rest => a.Takes last taken rest ∨ b.Takes last taken rest
  | capture a, last, taken, rest => a.Takes last taken rest

theorem takes_of_mem_ends (a : Pattern) {c d : Cursor} (h : d ∈ a.ends c) :
    ∃ taken, c.Reaches taken d ∧ a.Takes c.before.head? taken d.after := by
  induction a generalizing c d with
  | empty =>
    obtain rfl := List.mem_singleton.1 h
    exact ⟨[], .refl _, rfl⟩
  | one p =>
    rw [ends] at h
    split at h
    · cases h
    · next x rest hafter =>
      split at h
      · next hx =>
        obtain rfl := List.mem_singleton.1 h
        exact ⟨[x], ⟨rfl, hafter⟩, x, rfl, hx⟩
      · cases h
  | many p =>
    obtain h | ⟨taken, rest, hafter, hall, rfl⟩ := Cursor.mem_runs.1 h
    · cases h
    · exact ⟨taken, ⟨rfl, hafter⟩, hall⟩
  | between p =>
    rw [ends] at h
    split at h
    · next hp =>
      obtain rfl := List.mem_singleton.1 h
      exact ⟨[], .refl _, rfl, hp⟩
    · cases h
  | seq a b iha ihb =>
    obtain ⟨e, he, hd⟩ := List.mem_flatMap.1 h
    obtain ⟨u, hu, hau⟩ := iha he
    obtain ⟨v, hv, hbv⟩ := ihb hd
    refine ⟨u ++ v, hu.trans hv, u, v, rfl, ?_, ?_⟩
    · rwa [← hv.after]
    · rwa [← hu.last]
  | alt a b iha ihb =>
    obtain h | h := List.mem_append.1 h
    · obtain ⟨taken, hr, ht⟩ := iha h
      exact ⟨taken, hr, .inl ht⟩
    · obtain ⟨taken, hr, ht⟩ := ihb h
      exact ⟨taken, hr, .inr ht⟩
  | capture a iha =>
    obtain ⟨e, he, rfl⟩ := List.mem_map.1 h
    obtain ⟨taken, hr, ht⟩ := iha he
    exact ⟨taken, hr.captured _, ht⟩

theorem exists_mem_ends (a : Pattern) {c : Cursor} {taken rest : Text}
    (hafter : c.after = taken ++ rest) (h : a.Takes c.before.head? taken rest) :
    ∃ d ∈ a.ends c, c.Reaches taken d ∧ d.after = rest := by
  induction a generalizing c taken rest with
  | empty =>
    obtain rfl : taken = [] := h
    exact ⟨c, List.mem_singleton_self c, .refl c, hafter⟩
  | one p =>
    obtain ⟨x, rfl, hx⟩ := h
    refine ⟨⟨x :: c.before, rest, c.captured⟩, ?_, ⟨rfl, hafter⟩, rfl⟩
    simp [ends, hafter, hx]
  | many p =>
    refine ⟨⟨taken.reverse ++ c.before, rest, c.captured⟩, ?_, ⟨rfl, hafter⟩, rfl⟩
    exact Cursor.mem_runs.2 (.inr ⟨taken, rest, hafter, h, rfl⟩)
  | between p =>
    obtain ⟨rfl, hp⟩ := h
    obtain rfl : c.after = rest := hafter
    refine ⟨c, ?_, .refl c, rfl⟩
    simp [ends, hp]
  | seq a b iha ihb =>
    obtain ⟨u, v, rfl, hu, hv⟩ := h
    rw [List.append_assoc] at hafter
    obtain ⟨e, he, hre, hrest⟩ := iha hafter hu
    rw [← hre.last] at hv
    obtain ⟨d, hd, hrd, hd'⟩ := ihb hrest hv
    exact ⟨d, List.mem_flatMap.2 ⟨e, he, hd⟩, hre.trans hrd, hd'⟩
  | alt a b iha ihb =>
    obtain h | h := h
    · obtain ⟨d, hd, hr, hd'⟩ := iha hafter h
      exact ⟨d, List.mem_append_left _ hd, hr, hd'⟩
    · obtain ⟨d, hd, hr, hd'⟩ := ihb hafter h
      exact ⟨d, List.mem_append_right _ hd, hr, hd'⟩
  | capture a iha =>
    obtain ⟨d, hd, hr, hd'⟩ := iha hafter h
    exact ⟨_, List.mem_map.2 ⟨d, hd, rfl⟩, hr.captured _, hd'⟩

/-- Whether a pattern looks at nothing around what it takes. -/
def isPlain : Pattern → Bool
  | seq a b | alt a b => a.isPlain && b.isPlain
  | capture a => a.isPlain
  | between _ => false
  | empty | one _ | many _ => true

theorem Takes.of_isPlain {a : Pattern} (ha : a.isPlain = true) {last last' : Option Char}
    {taken rest rest' : Text} (h : a.Takes last taken rest) : a.Takes last' taken rest' := by
  induction a generalizing last last' taken rest rest' with
  | empty | one | many => exact h
  | between p => cases ha
  | seq a b iha ihb =>
    obtain ⟨ha, hb⟩ := Bool.and_eq_true_iff.1 ha
    obtain ⟨u, v, rfl, hu, hv⟩ := h
    exact ⟨u, v, rfl, iha ha hu, ihb hb hv⟩
  | alt a b iha ihb =>
    obtain ⟨ha, hb⟩ := Bool.and_eq_true_iff.1 ha
    exact h.imp (iha ha) (ihb hb)
  | capture a iha => exact iha ha h

theorem isSome_end?_iff (a : Pattern) (c : Cursor) :
    (a.end? c).isSome = true ↔
      ∃ taken rest, c.after = taken ++ rest ∧ a.Takes c.before.head? taken rest := by
  rw [end?_eq_head?, List.isSome_head?]
  constructor
  · intro h
    obtain ⟨d, hd⟩ := List.exists_mem_of_ne_nil _ (by simpa using h)
    obtain ⟨taken, hr, ht⟩ := takes_of_mem_ends a hd
    exact ⟨taken, d.after, hr.after, ht⟩
  · rintro ⟨taken, rest, hafter, ht⟩
    obtain ⟨d, hd, -⟩ := exists_mem_ends a hafter ht
    simpa using List.ne_nil_of_mem hd

theorem isSome_end?_between_iff (a : Pattern) (last : Option Char) (t : Text) :
    (a.end? (.between last t)).isSome = true ↔
      ∃ taken rest, t = taken ++ rest ∧ a.Takes last taken rest := by
  have hlast : (Cursor.between last t).before.head? = last := by cases last <;> rfl
  rw [isSome_end?_iff, hlast]
  exact Iff.rfl

theorem isSome_captureAfter?_cons (a : Pattern) (last : Option Char) (x : Char) (t : Text) :
    (a.captureAfter? last (x :: t)).isSome = true ↔
      (∃ taken rest, x :: t = taken ++ rest ∧ a.Takes last taken rest) ∨
        (a.captureAfter? (some x) t).isSome = true := by
  have hhere := isSome_end?_between_iff a last (x :: t)
  rw [captureAfter?]
  refine Iff.trans ?_ (or_congr_left hhere)
  cases a.end? (.between last (x :: t)) with
  | none => simp
  | some d => simp

theorem isSome_captureAfter?_iff (a : Pattern) (last : Option Char) (t : Text) :
    (a.captureAfter? last t).isSome = true ↔
      ∃ front taken rest, t = front ++ (taken ++ rest) ∧
        a.Takes (lastOver last front) taken rest := by
  induction t generalizing last with
  | nil =>
    rw [captureAfter?, Option.isSome_map, isSome_end?_iff]
    constructor
    · rintro ⟨taken, rest, heq, ht⟩
      refine ⟨[], taken, rest, heq, ?_⟩
      cases last <;> exact ht
    · rintro ⟨front, taken, rest, heq, ht⟩
      obtain ⟨rfl, hnil⟩ := List.nil_eq_append_iff.1 heq
      refine ⟨taken, rest, hnil.symm, ?_⟩
      cases last <;> exact ht
  | cons x t ih =>
    rw [isSome_captureAfter?_cons, ih]
    constructor
    · rintro (⟨taken, rest, heq, ht⟩ | ⟨front, taken, rest, rfl, ht⟩)
      · exact ⟨[], taken, rest, heq, ht⟩
      · exact ⟨x :: front, taken, rest, rfl, by rwa [lastOver_cons]⟩
    · rintro ⟨front, taken, rest, heq, ht⟩
      cases front with
      | nil => exact .inl ⟨taken, rest, heq, ht⟩
      | cons y front =>
        obtain ⟨rfl, rfl⟩ := List.cons.inj heq
        rw [lastOver_cons] at ht
        exact .inr ⟨front, taken, rest, rfl, ht⟩

theorem occursIn_iff (a : Pattern) (t : Text) :
    a.occursIn t = true ↔
      ∃ front taken rest, t = front ++ (taken ++ rest) ∧ a.Takes front.getLast? taken rest := by
  simp only [occursIn, capture?, isSome_captureAfter?_iff, lastOver_none]

variable {last : Option Char} {taken rest : Text}

theorem takes_chain_cons {a : Pattern} {parts : List Pattern} :
    (chain (a :: parts)).Takes last taken rest ↔
      ∃ u v, taken = u ++ v ∧ a.Takes last u (v ++ rest) ∧
        (chain parts).Takes (lastOver last u) v rest := Iff.rfl

theorem takes_chain_split {front back : List Pattern} :
    (chain (front ++ back)).Takes last taken rest ↔
      ∃ u v, taken = u ++ v ∧ (chain front).Takes last u (v ++ rest) ∧
        (chain back).Takes (lastOver last u) v rest := by
  induction front generalizing last taken with
  | nil =>
    constructor
    · exact fun h ↦ ⟨[], taken, rfl, rfl, h⟩
    · rintro ⟨u, v, rfl, rfl, h⟩
      exact h
  | cons a front ih =>
    rw [List.cons_append, takes_chain_cons]
    constructor
    · rintro ⟨u, v, rfl, hu, hv⟩
      obtain ⟨x, y, rfl, hx, hy⟩ := ih.1 hv
      rw [List.append_assoc] at hu
      refine ⟨u ++ x, y, (List.append_assoc ..).symm, ⟨u, x, rfl, hu, hx⟩, ?_⟩
      rwa [lastOver_append]
    · rintro ⟨u, v, rfl, ⟨x, y, rfl, hx, hy⟩, hv⟩
      rw [lastOver_append] at hv
      refine ⟨x, y ++ v, List.append_assoc .., ?_, ih.2 ⟨y, v, rfl, hy, hv⟩⟩
      rwa [List.append_assoc]

theorem takes_chain_append {a : Pattern} {parts : List Pattern} {u v : Text}
    (h : a.Takes last u (v ++ rest)) (hparts : (chain parts).Takes (lastOver last u) v rest) :
    (chain (a :: parts)).Takes last (u ++ v) rest := takes_chain_cons.2 ⟨u, v, rfl, h, hparts⟩

theorem takes_chain_skip {a : Pattern} {parts : List Pattern}
    (h : a.Takes last [] (taken ++ rest)) (hparts : (chain parts).Takes last taken rest) :
    (chain (a :: parts)).Takes last taken rest := takes_chain_append h hparts

theorem takes_chain_singleton {a : Pattern} (h : a.Takes last taken rest) :
    (chain [a]).Takes last taken rest :=
  takes_chain_cons.2 ⟨taken, [], (List.append_nil _).symm, h, rfl⟩

theorem takes_many_nil {p : Char → Bool} : (many p).Takes last [] rest := fun _ h ↦ nomatch h

theorem takes_literal {w : Text} : (literal w).Takes last taken rest ↔ taken = w := by
  induction w generalizing last taken with
  | nil => exact Iff.rfl
  | cons x w ih =>
    rw [literal, List.map_cons, takes_chain_cons]
    constructor
    · rintro ⟨u, v, rfl, ⟨y, rfl, hy⟩, hv⟩
      rw [ih.1 hv, of_decide_eq_true hy]
      rfl
    · rintro rfl
      exact ⟨[x], w, rfl, ⟨x, rfl, decide_eq_true rfl⟩, ih.2 rfl⟩

theorem takes_oneOf {choices : List Text} :
    (oneOf choices).Takes last taken rest ↔ taken ∈ choices := by
  induction choices with
  | nil =>
    rw [oneOf]
    constructor
    · rintro ⟨x, -, hx⟩
      cases hx
    · exact fun h ↦ absurd h List.not_mem_nil
  | cons w choices ih =>
    cases choices with
    | nil => rw [oneOf, takes_literal, List.mem_singleton]
    | cons v choices =>
      rw [List.mem_cons, ← ih, oneOf, Takes, takes_literal]
      rintro ⟨⟩

theorem takes_run {p : Char → Bool} :
    (run p).Takes last taken rest ↔ taken ≠ [] ∧ ∀ x ∈ taken, p x = true := by
  constructor
  · rintro ⟨u, v, rfl, ⟨x, rfl, hx⟩, hv⟩
    exact ⟨by simp, List.forall_mem_cons.2 ⟨hx, hv⟩⟩
  · rintro ⟨hne, hall⟩
    cases taken with
    | nil => exact absurd rfl hne
    | cons x taken =>
      exact ⟨[x], taken, rfl, ⟨x, rfl, hall x List.mem_cons_self⟩,
        fun y hy ↦ hall y (List.mem_cons_of_mem _ hy)⟩

theorem takes_optional {a : Pattern} :
    (optional a).Takes last taken rest ↔ a.Takes last taken rest ∨ taken = [] := Iff.rfl

theorem occursIn_literal {w t : Text} : (literal w).occursIn t = true ↔ w <:+: t := by
  rw [occursIn_iff]
  constructor
  · rintro ⟨front, taken, rest, rfl, h⟩
    rw [takes_literal.1 h]
    exact ⟨front, rest, List.append_assoc ..⟩
  · rintro ⟨front, rest, rfl⟩
    exact ⟨front, w, rest, List.append_assoc .., takes_literal.2 rfl⟩

theorem occursIn_oneOf {choices : List Text} {t : Text} :
    (oneOf choices).occursIn t = true ↔ ∃ w ∈ choices, w <:+: t := by
  rw [occursIn_iff]
  constructor
  · rintro ⟨front, taken, rest, rfl, h⟩
    exact ⟨taken, takes_oneOf.1 h, front, rest, List.append_assoc ..⟩
  · rintro ⟨w, hw, front, rest, rfl⟩
    exact ⟨front, w, rest, List.append_assoc .., takes_oneOf.2 hw⟩

theorem infix_of_occursIn_chain {w t : Text} {parts : List Pattern}
    (h : (chain (literal w :: parts)).occursIn t = true) : w <:+: t := by
  obtain ⟨front, taken, rest, rfl, u, v, rfl, hu, -⟩ := (occursIn_iff _ _).1 h
  rw [takes_literal.1 hu]
  exact ⟨front, v ++ rest, by simp only [List.append_assoc]⟩

/-- Where a chain occurs that starts a line, blank characters apart, some line opens with the text
that comes then. -/
theorem exists_line_of_occursIn {w t : Text} {parts : List Pattern} (hw : ∀ c ∈ w, c ≠ '\n')
    (hhead : ∀ c ∈ w.head?, Text.isBlank c = false)
    (h : (chain (lineStart :: many Text.isBlank :: literal w :: parts)).occursIn t = true) :
    ∃ line ∈ Text.lines t, w <+: Text.trimStart line := by
  obtain ⟨front, taken, rest, rfl, u, v, rfl, ⟨rfl, hstart⟩, h⟩ := (occursIn_iff _ _).1 h
  obtain ⟨blanks, v, rfl, hblanks, x, more, rfl, hx, -⟩ := h
  rw [takes_literal.1 hx, List.nil_append, List.append_assoc, List.append_assoc]
  obtain ⟨line, hline, hword⟩ := Text.exists_line_of_blanks hblanks hw hhead (more ++ rest)
  refine ⟨line, Text.exists_line_of_lineStart (fun c hc ↦ ?_) hline, hword⟩
  rw [Option.mem_def] at hc
  rw [hc] at hstart
  exact of_decide_eq_true hstart

end Pattern

end CanvasLift
