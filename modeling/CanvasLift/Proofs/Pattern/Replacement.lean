import CanvasLift.Proofs.Pattern.Piece

/-!
Pieces one after another. The main statements are that a pattern which looks at nothing around its
matches cuts a text into the pieces of its two parts wherever no match reaches from one part into the
other, and that nothing but the matches is replaced.
-/

namespace CanvasLift

namespace Cursor

def shift (b : Text) (c : Cursor) : Cursor := { c with before := c.before ++ b }

theorem runs_shift (p : Char → Bool) (captured b : Text) (before after : Text)
    (nearer : List Cursor) :
    runs p captured (before ++ b) after (nearer.map (shift b)) =
      (runs p captured before after nearer).map (shift b) := by
  induction after generalizing before nearer with
  | nil => rfl
  | cons x after ih =>
    rw [runs, runs]
    split
    · exact ih (x :: before) (⟨before, x :: after, captured⟩ :: nearer)
    · rfl

theorem upTo_shift (b : Text) (c d : Cursor) : (c.shift b).upTo (d.shift b) = c.upTo d := by
  have hoffset : (d.shift b).offset - (c.shift b).offset = d.offset - c.offset := by
    simp only [offset, shift, List.length_append]
    omega
  rw [upTo, upTo, hoffset]
  rfl

end Cursor

namespace Pattern

variable {a : Pattern} {last : Option Char} {f : Text → Text} {taken rest t u v : Text}

/-- A pattern that looks at nothing around it ends its matches in the same places after any text. -/
theorem ends_shift (ha : a.isPlain = true) (b : Text) (c : Cursor) :
    a.ends (c.shift b) = (a.ends c).map (Cursor.shift b) := by
  induction a generalizing c with
  | empty => rfl
  | one p =>
    obtain ⟨before, after, captured⟩ := c
    cases after with
    | nil => rfl
    | cons x after => by_cases hx : p x = true <;> simp [ends, Cursor.shift, hx]
  | many p => exact Cursor.runs_shift p c.captured b c.before c.after []
  | between p => simp [isPlain] at ha
  | seq a a' ih ih' =>
    simp only [isPlain, Bool.and_eq_true] at ha
    simp only [ends, ih ha.1, List.flatMap_map, List.map_flatMap, ih' ha.2]
  | alt a a' ih ih' =>
    simp only [isPlain, Bool.and_eq_true] at ha
    simp only [ends, ih ha.1, ih' ha.2, List.map_append]
  | capture a ih =>
    simp only [isPlain] at ha
    simp only [ends, ih ha, List.map_map]
    refine List.map_congr_left fun d _ ↦ ?_
    simp only [Function.comp_apply, Cursor.upTo_shift]
    rfl

theorem piecesAfter_of_isPlain (ha : a.isPlain = true) (skip : Nat) (last : Option Char)
    (t : Text) : a.piecesAfter skip last t = a.piecesAfter skip none t := by
  cases t with
  | nil => rw [piecesAfter, piecesAfter]
  | cons x t =>
    cases skip with
    | succ skip => rw [piecesAfter, piecesAfter]
    | zero =>
      have hshift : Cursor.between last (x :: t) = (Cursor.between none (x :: t)).shift last.toList := rfl
      rw [piecesAfter, piecesAfter, hshift, end?_eq_head?, ends_shift ha, List.head?_map,
        ← end?_eq_head?]
      cases a.end? (Cursor.between none (x :: t)) with
      | none => rfl
      | some d =>
        have hoffset : (d.shift last.toList).offset -
            ((Cursor.between none (x :: t)).shift last.toList).offset =
              d.offset - (Cursor.between none (x :: t)).offset := by
          simp only [Cursor.offset, Cursor.shift, List.length_append]
          omega
        simp only [Option.map_some, hoffset, Cursor.upTo_shift]
        rfl

theorem isPlain_literal (w : Text) : (literal w).isPlain = true := by
  induction w with
  | nil => rfl
  | cons x w ih => exact ih

theorem capturesNothing_literal (w : Text) : (literal w).capturesNothing = true := by
  induction w with
  | nil => rfl
  | cons x w ih => exact ih

theorem opens_iff (a : Pattern) (t : Text) :
    a.opens t = true ↔ ∃ taken rest, t = taken ++ rest ∧ a.Takes none taken rest :=
  isSome_end?_iff a (Cursor.start t)

theorem not_takes_of_opens_eq_false (h : a.opens (taken ++ rest) = false) :
    ¬ a.Takes none taken rest := by
  intro htakes
  rw [(opens_iff a _).2 ⟨taken, rest, rfl, htakes⟩] at h
  cases h

theorem piecesAfter_cons {x : Char}
    (h : ∀ taken rest, x :: t = taken ++ rest → ¬ a.Takes last taken rest) :
    a.piecesAfter 0 last (x :: t) = .kept x :: a.piecesAfter 0 (some x) t := by
  have hlast : (Cursor.between last (x :: t)).before.head? = last := by cases last <;> rfl
  have hnone : a.end? (.between last (x :: t)) = none := by
    rw [← Option.not_isSome_iff_eq_none, isSome_end?_iff, hlast]
    rintro ⟨taken, rest, heq, htakes⟩
    exact h taken rest heq htakes
  rw [piecesAfter, hnone]

theorem piecesAfter_length (a : Pattern) (last : Option Char) (u t : Text) :
    a.piecesAfter u.length last (u ++ t) = a.piecesAfter 0 (lastOver last u) t := by
  induction u generalizing last with
  | nil => simp [lastOver]
  | cons x u ih => rw [List.cons_append, List.length_cons, piecesAfter, ih, lastOver_cons]

theorem piecesAfter_of_end? {d : Cursor} (hd : a.end? (.between last (taken ++ rest)) = some d)
    (hr : (Cursor.between last (taken ++ rest)).Reaches taken d) (hne : taken ≠ []) :
    a.piecesAfter 0 last (taken ++ rest) =
      .hit taken d.captured :: a.piecesAfter 0 (lastOver last taken) rest := by
  obtain ⟨x, more, rfl⟩ := List.exists_cons_of_ne_nil hne
  have hoffset : d.offset - (Cursor.between last (x :: (more ++ rest))).offset = more.length + 1 := by
    have hbefore : d.before = (x :: more).reverse ++ last.toList := hr.before
    simp only [Cursor.offset, Cursor.between, hbefore, List.length_append, List.length_reverse,
      List.length_cons]
    omega
  rw [List.cons_append] at hd hr ⊢
  rw [piecesAfter, hd]
  simp only [hoffset, hr.upTo, piecesAfter_length, lastOver_cons]

theorem piecesAfter_append (hne : taken ≠ []) (h : a.Takes last taken rest)
    (hunique : ∀ u v, taken ++ rest = u ++ v → a.Takes last u v → u = taken) :
    ∃ d ∈ a.ends (.between last (taken ++ rest)), (Cursor.between last (taken ++ rest)).Reaches taken d ∧
      a.piecesAfter 0 last (taken ++ rest) =
        .hit taken d.captured :: a.piecesAfter 0 (lastOver last taken) rest := by
  have hlast : (Cursor.between last (taken ++ rest)).before.head? = last := by cases last <;> rfl
  obtain ⟨d, hd⟩ : ∃ d, a.end? (.between last (taken ++ rest)) = some d := by
    rw [← Option.isSome_iff_exists, isSome_end?_iff, hlast]
    exact ⟨taken, rest, rfl, h⟩
  have hmem : d ∈ a.ends (.between last (taken ++ rest)) := by
    rw [end?_eq_head?] at hd
    exact List.mem_of_head? hd
  obtain ⟨u, hu, htakes⟩ := takes_of_mem_ends a hmem
  rw [hlast] at htakes
  obtain rfl := hunique u d.after hu.after htakes
  exact ⟨d, hmem, hu, piecesAfter_of_end? hd hu hne⟩

/-- The first piece of a text is a character that is kept, because nothing is taken there, or a
match. -/
theorem piecesAfter_cases (a : Pattern) (last : Option Char) (x : Char) (t : Text) :
    ((∀ taken rest, x :: t = taken ++ rest → a.Takes last taken rest → a.Takes last [] (x :: t)) ∧
      a.piecesAfter 0 last (x :: t) = .kept x :: a.piecesAfter 0 (some x) t) ∨
      ∃ taken rest captured, x :: t = taken ++ rest ∧ taken ≠ [] ∧ a.Takes last taken rest ∧
        a.piecesAfter 0 last (x :: t) =
          .hit taken captured :: a.piecesAfter 0 (lastOver last taken) rest := by
  have hlast : (Cursor.between last (x :: t)).before.head? = last := by cases last <;> rfl
  rw [piecesAfter]
  split
  · next d hd =>
    rw [end?_eq_head?] at hd
    obtain ⟨taken, hr, htakes⟩ := takes_of_mem_ends a (List.mem_of_head? hd)
    have hoffset : d.offset - (Cursor.between last (x :: t)).offset = taken.length := by
      simp only [Cursor.offset, hr.before, List.length_append, List.length_reverse]
      omega
    rw [hoffset]
    rw [hlast] at htakes
    cases taken with
    | nil =>
      have htext : x :: t = d.after := hr.after
      exact .inl ⟨fun _ _ _ _ ↦ htext ▸ htakes, rfl⟩
    | cons y taken =>
      have htext : x :: t = y :: (taken ++ d.after) := hr.after
      obtain ⟨rfl, rfl⟩ := List.cons.inj htext
      refine .inr ⟨x :: taken, d.after, d.captured, rfl, List.cons_ne_nil x taken, htakes, ?_⟩
      simp only [List.length_cons, hr.upTo, piecesAfter_length, lastOver_cons]
  · next hnone =>
    refine .inl ⟨fun taken rest heq htakes ↦ ?_, rfl⟩
    rw [← Option.not_isSome_iff_eq_none, isSome_end?_iff, hlast] at hnone
    exact absurd ⟨taken, rest, heq, htakes⟩ hnone

theorem eq_piecesAfter_of_eq_append {before after : List Piece}
    (h : a.piecesAfter 0 last t = before ++ after) :
    ∃ u, t = before.flatMap Piece.text ++ u ∧
      after = a.piecesAfter 0 (lastOver last (before.flatMap Piece.text)) u := by
  induction before generalizing last t with
  | nil => exact ⟨t, rfl, by rw [← List.nil_append after, ← h]; rfl⟩
  | cons piece before ih =>
    cases t with
    | nil =>
      rw [piecesAfter] at h
      cases h
    | cons x t =>
      rcases piecesAfter_cases a last x t with ⟨-, hpieces⟩ | ⟨taken, rest, captured, heq, -, -, hpieces⟩
      · rw [hpieces] at h
        obtain ⟨rfl, hrest⟩ := List.cons.inj h
        obtain ⟨u, rfl, hafter⟩ := ih hrest
        refine ⟨u, rfl, ?_⟩
        rw [hafter, List.flatMap_cons, Piece.text, List.singleton_append, lastOver_cons]
      · rw [hpieces] at h
        obtain ⟨rfl, hrest⟩ := List.cons.inj h
        obtain ⟨u, rfl, hafter⟩ := ih hrest
        refine ⟨u, ?_, ?_⟩
        · rw [heq, List.flatMap_cons, Piece.text, List.append_assoc]
        · rw [hafter, List.flatMap_cons, Piece.text, lastOver_append]

/-- No match reaches over the end of `front`. -/
def PartsAt (a : Pattern) (front t : Text) : Prop :=
  ∃ before after, a.pieces t = before ++ after ∧ before.flatMap Piece.text = front

/-- A match covers `part` right behind `front`. -/
def Hits (a : Pattern) (front part t : Text) : Prop :=
  ∃ before captured after, a.pieces t = before ++ .hit part captured :: after ∧
    before.flatMap Piece.text = front

theorem Hits.partsAt {front part : Text} (h : a.Hits front part t) : a.PartsAt front t := by
  obtain ⟨before, captured, after, hpieces, hfront⟩ := h
  exact ⟨before, _, hpieces, hfront⟩

theorem Hits.takes {front part : Text} (h : a.Hits front part (front ++ u)) :
    ∃ rest, u = part ++ rest ∧ a.Takes (lastOver none front) part rest := by
  obtain ⟨before, captured, after, hpieces, rfl⟩ := h
  obtain ⟨u', heq, hafter⟩ := eq_piecesAfter_of_eq_append hpieces
  obtain rfl := List.append_cancel_left heq
  cases u with
  | nil =>
    rw [piecesAfter] at hafter
    cases hafter
  | cons x u =>
    rcases piecesAfter_cases a (lastOver none (before.flatMap Piece.text)) x u with ⟨-, hkept⟩ |
      ⟨taken, rest, captured', heq', -, htakes, hhit⟩
    · rw [hkept] at hafter
      cases (List.cons.inj hafter).1
    · rw [hhit] at hafter
      cases (List.cons.inj hafter).1
      exact ⟨rest, heq', htakes⟩

theorem PartsAt.exists_hits {front : Text} (hsome : ∀ last rest, ¬ a.Takes last [] rest)
    (h : a.PartsAt front (front ++ (taken ++ rest))) (htakes : a.Takes (lastOver none front) taken rest) :
    ∃ part, a.Hits front part (front ++ (taken ++ rest)) := by
  obtain ⟨before, after, hpieces, rfl⟩ := h
  obtain ⟨u, heq, hafter⟩ := eq_piecesAfter_of_eq_append hpieces
  obtain rfl := List.append_cancel_left heq
  cases taken with
  | nil => exact absurd htakes (hsome _ _)
  | cons x taken =>
    rcases piecesAfter_cases a (lastOver none (before.flatMap Piece.text)) x (taken ++ rest) with
      ⟨hnone, -⟩ | ⟨taken', rest', captured, -, -, -, hhit⟩
    · exact absurd (hnone (x :: taken) rest rfl htakes) (hsome _ _)
    · rw [List.cons_append, hhit] at hafter
      exact ⟨taken', before, captured, _, hafter ▸ hpieces, rfl⟩

theorem pieces_cons (ha : a.isPlain = true) {x : Char} (h : a.opens (x :: t) = false) :
    a.pieces (x :: t) = .kept x :: a.pieces t := by
  rw [pieces, piecesAfter_cons, piecesAfter_of_isPlain ha]
  · rfl
  · intro taken rest heq
    exact not_takes_of_opens_eq_false (heq ▸ h)

theorem pieces_append_of_not_opens (ha : a.isPlain = true)
    (h : ∀ w, w <:+ u → w ≠ [] → a.opens (w ++ t) = false) :
    a.pieces (u ++ t) = u.map .kept ++ a.pieces t := by
  induction u with
  | nil => rfl
  | cons x u ih =>
    have hopens : a.opens (x :: (u ++ t)) = false := h _ List.suffix_rfl (List.cons_ne_nil x u)
    rw [List.cons_append, pieces_cons ha hopens, ih]
    · rfl
    · intro w hw
      exact h w (hw.trans (List.suffix_cons x u))

/-- Whether a pattern can match in at most one way in each place. -/
def Unique (a : Pattern) : Prop :=
  ∀ taken rest u v, taken ++ rest = u ++ v → a.Takes none taken rest → a.Takes none u v → u = taken

theorem pieces_append_of_takes (ha : a.isPlain = true) (hunique : a.Unique) (hne : taken ≠ [])
    (h : a.Takes none taken rest) :
    ∃ d ∈ a.ends (.start (taken ++ rest)), (Cursor.start (taken ++ rest)).Reaches taken d ∧
      a.pieces (taken ++ rest) = .hit taken d.captured :: a.pieces rest := by
  obtain ⟨d, hd, hreaches, hpieces⟩ := piecesAfter_append hne h
    fun u v heq hu ↦ hunique taken rest u v heq h hu
  refine ⟨d, hd, hreaches, ?_⟩
  rw [pieces, hpieces, piecesAfter_of_isPlain ha]
  rfl

theorem replace_append_of_not_opens (ha : a.isPlain = true) (f : Text → Text)
    (h : ∀ w, w <:+ u → w ≠ [] → a.opens (w ++ t) = false) :
    a.replace f (u ++ t) = u ++ a.replace f t := by
  rw [replace, pieces_append_of_not_opens ha h, List.flatMap_append, List.flatMap_map]
  simp [replace]

theorem replace_eq_of_not_opens (ha : a.isPlain = true) (f : Text → Text)
    (h : ∀ w, w <:+ u → w ≠ [] → a.opens w = false) : a.replace f u = u := by
  have hnil := replace_append_of_not_opens (t := []) ha f fun w hw hne ↦ by
    rw [List.append_nil]
    exact h w hw hne
  rwa [List.append_nil, show a.replace f [] = [] from rfl, List.append_nil] at hnil

theorem replace_cons (ha : a.isPlain = true) (f : Text → Text) {x : Char}
    (h : a.opens (x :: t) = false) : a.replace f (x :: t) = x :: a.replace f t := by
  rw [replace, pieces_cons ha h]
  rfl

theorem replace_append_of_takes (ha : a.isPlain = true) (hunique : a.Unique) (hne : taken ≠ [])
    (h : a.Takes none taken rest) {replacement : Text}
    (hf : ∀ d ∈ a.ends (.start (taken ++ rest)), f d.captured = replacement) :
    a.replace f (taken ++ rest) = replacement ++ a.replace f rest := by
  obtain ⟨d, hd, -, hpieces⟩ := pieces_append_of_takes ha hunique hne h
  rw [replace, hpieces, List.flatMap_cons]
  exact congrArg (· ++ a.replace f rest) (hf d hd)

/-- Where no match reaches from one part of a text into the other, each part has the pieces that it has
as a text of its own. -/
theorem pieces_append (ha : a.isPlain = true) (hnothing : a.capturesNothing = true)
    (hunique : a.Unique) (hsome : ∀ rest, ¬ a.Takes none [] rest)
    (h : ∀ w, w <:+ u → w ≠ [] → ∀ taken rest, w ++ v = taken ++ rest → a.Takes none taken rest →
      taken <+: w) :
    a.pieces (u ++ v) = a.pieces u ++ a.pieces v := by
  have htaken : ∀ {taken rest}, taken ≠ [] → a.Takes none taken rest →
      a.pieces (taken ++ rest) = .hit taken [] :: a.pieces rest := by
    intro taken rest hne htakes
    obtain ⟨d, hd, -, hpieces⟩ := pieces_append_of_takes ha hunique hne htakes
    rw [hpieces, captured_of_mem_ends hnothing hd]
    rfl
  induction hlength : u.length using Nat.strongRecOn generalizing u with
  | ind n ih =>
    cases u with
    | nil => rfl
    | cons x u =>
      have hshorter : ∀ w, w <:+ x :: u → w.length < n →
          a.pieces (w ++ v) = a.pieces w ++ a.pieces v := by
        intro w hw hlt
        exact ih w.length hlt (fun w' hw' ↦ h w' (hw'.trans hw)) rfl
      cases hopens : a.opens (x :: (u ++ v)) with
      | true =>
        obtain ⟨taken, rest, heq, htakes⟩ := (opens_iff a _).1 hopens
        obtain ⟨more, hmore⟩ := h _ List.suffix_rfl (List.cons_ne_nil x u) taken rest heq htakes
        have hne : taken ≠ [] := by
          rintro rfl
          exact hsome rest htakes
        have hrest : rest = more ++ v := by
          rw [← List.cons_append, ← hmore, List.append_assoc] at heq
          exact (List.append_cancel_left heq).symm
        have hlt : more.length < n := by
          have := congrArg List.length hmore
          have := List.length_pos_iff.2 hne
          simp only [List.length_append] at *
          omega
        rw [← hmore, List.append_assoc, htaken hne (hrest ▸ htakes),
          htaken hne (htakes.of_isPlain ha), hshorter more (hmore ▸ List.suffix_append taken more) hlt,
          List.cons_append]
      | false =>
        have hopens' : a.opens (x :: u) = false := by
          rw [← Bool.not_eq_true, opens_iff]
          rintro ⟨taken, rest, heq, htakes⟩
          rw [← List.cons_append, heq, List.append_assoc] at hopens
          exact not_takes_of_opens_eq_false hopens (htakes.of_isPlain ha)
        have hlt : u.length < n := by
          simp only [List.length_cons] at hlength
          omega
        rw [List.cons_append, pieces_cons ha hopens, pieces_cons ha hopens',
          hshorter u (List.suffix_cons x u) hlt, List.cons_append]

def parts (a : Pattern) (t : Text) : List Text :=
  (a.pieces t).filterMap fun
    | .kept _ => none
    | .hit text _ => some text

theorem parts_append_of_pieces (h : a.pieces (u ++ v) = a.pieces u ++ a.pieces v) :
    a.parts (u ++ v) = a.parts u ++ a.parts v := by
  rw [parts, h, List.filterMap_append]
  rfl

/-- A text is what it keeps with its matches in between, and they alone are replaced. -/
theorem exists_kept (a : Pattern) (replacement t : Text) :
    ∃ (kept : List (Text × Text)) (last : Text), kept.map (·.2) = a.parts t ∧
      t = kept.flatMap (fun p ↦ p.1 ++ p.2) ++ last ∧
      a.replace (fun _ ↦ replacement) t = kept.flatMap (fun p ↦ p.1 ++ replacement) ++ last := by
  have htext := flatMap_text_pieces a t
  rw [replace, parts]
  generalize a.pieces t = pieces at htext
  subst htext
  induction pieces with
  | nil => exact ⟨[], [], rfl, rfl, rfl⟩
  | cons piece pieces ih =>
    obtain ⟨kept, last, hparts, htext, hreplace⟩ := ih
    rw [List.flatMap_cons, List.flatMap_cons, htext, hreplace]
    cases piece with
    | kept c =>
      cases kept with
      | nil => exact ⟨[], c :: last, hparts, rfl, rfl⟩
      | cons p kept => exact ⟨(c :: p.1, p.2) :: kept, last, hparts, rfl, rfl⟩
    | hit text captured =>
      refine ⟨([], text) :: kept, last, congrArg (text :: ·) hparts, ?_, ?_⟩
      · simp [Piece.text]
      · simp

theorem takes_of_mem_parts {part : Text} (h : part ∈ a.parts t) : ∃ last rest, a.Takes last part rest := by
  obtain ⟨piece, hpiece, heq⟩ := List.mem_filterMap.1 h
  cases piece with
  | kept c => cases heq
  | hit text captured =>
    obtain rfl := Option.some.inj heq
    exact takes_of_mem_hit hpiece

theorem parts_eq_nil_iff (ha : ∀ last rest, ¬ a.Takes last [] rest) :
    a.parts t = [] ↔ a.occursIn t = false := by
  rw [← captures_eq_nil_iff ha, parts, captures, List.filterMap_eq_nil_iff, List.filterMap_eq_nil_iff]
  refine forall₂_congr fun piece _ ↦ ?_
  cases piece <;> simp

theorem count_replace_add (a : Pattern) (replacement t : Text) (x : Char) :
    (a.replace (fun _ ↦ replacement) t).count x + (a.parts t).flatten.count x =
      t.count x + (a.parts t).length * replacement.count x := by
  obtain ⟨kept, last, hparts, htext, hreplace⟩ := exists_kept a replacement t
  rw [hreplace, ← hparts, htext]
  clear hparts htext hreplace
  induction kept with
  | nil => simp
  | cons p kept ih =>
    simp only [List.flatMap_cons, List.append_assoc, List.count_append, List.map_cons,
      List.flatten_cons, List.length_cons, Nat.add_one_mul] at ih ⊢
    omega

theorem infix_replace {replacement : Text} (h : a.parts t ≠ []) :
    replacement <:+: a.replace (fun _ ↦ replacement) t := by
  obtain ⟨kept, last, hparts, -, hreplace⟩ := exists_kept a replacement t
  rw [hreplace]
  cases kept with
  | nil => exact absurd hparts.symm h
  | cons p kept => exact ⟨p.1, kept.flatMap (fun p ↦ p.1 ++ replacement) ++ last, by simp⟩

theorem parts_cons (ha : a.isPlain = true) {x : Char} (h : a.opens (x :: t) = false) :
    a.parts (x :: t) = a.parts t := by
  rw [parts, pieces_cons ha h]
  rfl

theorem parts_append_of_takes (ha : a.isPlain = true) (hunique : a.Unique) (hne : taken ≠ [])
    (h : a.Takes none taken rest) : a.parts (taken ++ rest) = taken :: a.parts rest := by
  obtain ⟨d, -, -, hpieces⟩ := pieces_append_of_takes ha hunique hne h
  rw [parts, hpieces]
  rfl

theorem occursIn_cons_iff (ha : a.isPlain = true) {x : Char} :
    a.occursIn (x :: t) = true ↔ a.opens (x :: t) = true ∨ a.occursIn t = true := by
  rw [occursIn_iff, occursIn_iff, opens_iff]
  constructor
  · rintro ⟨front, taken, rest, heq, htakes⟩
    cases front with
    | nil => exact .inl ⟨taken, rest, heq, htakes⟩
    | cons y front =>
      obtain ⟨rfl, rfl⟩ := List.cons.inj heq
      exact .inr ⟨front, taken, rest, rfl, htakes.of_isPlain ha⟩
  · rintro (⟨taken, rest, heq, htakes⟩ | ⟨front, taken, rest, rfl, htakes⟩)
    · exact ⟨[], taken, rest, heq, htakes⟩
    · exact ⟨x :: front, taken, rest, rfl, htakes.of_isPlain ha⟩

theorem occursIn_append_left (ha : a.isPlain = true) (h : a.occursIn t = true) (u : Text) :
    a.occursIn (u ++ t) = true := by
  induction u with
  | nil => exact h
  | cons x u ih => exact (occursIn_cons_iff ha).2 (.inr ih)

end Pattern

end CanvasLift
