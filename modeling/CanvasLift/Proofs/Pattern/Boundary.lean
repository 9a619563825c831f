import CanvasLift.Proofs.Pattern.Replacement

/-!
Characters that a pattern takes nowhere. The main statement is that such a character parts a text into
two that are cut on their own.
-/

namespace CanvasLift

namespace Cursor

def extend (t : Text) (c : Cursor) : Cursor := { c with after := c.after ++ t }

theorem Reaches.extend {c d : Cursor} {taken : Text} (h : c.Reaches taken d) (t : Text) :
    (c.extend t).Reaches taken (d.extend t) := by
  refine ⟨h.before, ?_⟩
  rw [Cursor.extend, Cursor.extend, h.after, List.append_assoc]

theorem Reaches.upTo_extend {c d : Cursor} {taken : Text} (h : c.Reaches taken d) (t : Text) :
    (c.extend t).upTo (d.extend t) = c.upTo d := (h.extend t).upTo.trans h.upTo.symm

end Cursor

namespace Pattern

variable {a : Pattern} {x : Char} {last : Option Char} {t u : Text}

/-- Whether a pattern looks at nothing around what it takes, and takes no `x`. -/
def avoids (x : Char) : Pattern → Bool
  | seq a b | alt a b => a.avoids x && b.avoids x
  | capture a => a.avoids x
  | one p | many p => !p x
  | between _ => false
  | empty => true

theorem isPlain_of_avoids (ha : a.avoids x = true) : a.isPlain = true := by
  induction a with
  | seq a b iha ihb | alt a b iha ihb =>
    obtain ⟨ha, hb⟩ := Bool.and_eq_true_iff.1 ha
    exact Bool.and_eq_true_iff.2 ⟨iha ha, ihb hb⟩
  | capture a iha => exact iha ha
  | between p => cases ha
  | empty | one | many => rfl

theorem runs_extend {p : Char → Bool} (hx : p x = false) (captured before after : Text)
    (nearer : List Cursor) :
    Cursor.runs p captured before (after ++ x :: t) (nearer.map (.extend (x :: t))) =
      (Cursor.runs p captured before after nearer).map (.extend (x :: t)) := by
  induction after generalizing before nearer with
  | nil => simp [Cursor.runs, hx, Cursor.extend]
  | cons y after ih =>
    rw [List.cons_append, Cursor.runs, Cursor.runs]
    split
    · exact ih (y :: before) (⟨before, y :: after, captured⟩ :: nearer)
    · rfl

theorem ends_extend (ha : a.avoids x = true) (c : Cursor) :
    a.ends (c.extend (x :: t)) = (a.ends c).map (.extend (x :: t)) := by
  induction a generalizing c with
  | empty => rfl
  | one p =>
    obtain ⟨before, after, captured⟩ := c
    cases after with
    | nil =>
      have hx : p x = false := by simpa [avoids] using ha
      simp [ends, Cursor.extend, hx]
    | cons y after => by_cases hy : p y = true <;> simp [ends, Cursor.extend, hy]
  | many p =>
    have hx : p x = false := by simpa [avoids] using ha
    exact runs_extend hx c.captured c.before c.after []
  | between p => cases ha
  | seq a b iha ihb =>
    obtain ⟨ha, hb⟩ := Bool.and_eq_true_iff.1 ha
    simp only [ends, iha ha, List.flatMap_map, List.map_flatMap, ihb hb]
  | alt a b iha ihb =>
    obtain ⟨ha, hb⟩ := Bool.and_eq_true_iff.1 ha
    simp only [ends, iha ha, ihb hb, List.map_append]
  | capture a iha =>
    simp only [ends, iha ha, List.map_map]
    refine List.map_congr_left fun d hd ↦ ?_
    obtain ⟨taken, hr, -⟩ := takes_of_mem_ends a hd
    simp only [Function.comp_apply, hr.upTo_extend]
    rfl

/-- A character that the pattern takes nowhere parts a text. -/
theorem piecesAfter_append_cons (ha : a.avoids x = true) {skip : Nat} (hskip : skip ≤ u.length) :
    a.piecesAfter skip last (u ++ x :: t) =
      a.piecesAfter skip last u ++ a.piecesAfter 0 (lastOver last u) (x :: t) := by
  induction u generalizing skip last with
  | nil =>
    obtain rfl : skip = 0 := Nat.le_zero.1 hskip
    simp [piecesAfter, lastOver]
  | cons y u ih =>
    rw [List.length_cons] at hskip
    cases skip with
    | succ skip =>
      rw [List.cons_append, piecesAfter, piecesAfter, lastOver_cons]
      exact ih (by omega)
    | zero =>
      have hend : a.end? (.between last (y :: (u ++ x :: t))) =
          (a.end? (.between last (y :: u))).map (.extend (x :: t)) := by
        rw [end?_eq_head?, end?_eq_head?, ← List.head?_map, ← ends_extend ha]
        rfl
      rw [List.cons_append, piecesAfter, piecesAfter, hend, lastOver_cons]
      cases hd : a.end? (.between last (y :: u)) with
      | none => exact congrArg (.kept y :: ·) (ih (Nat.zero_le _))
      | some d =>
        obtain ⟨taken, hr⟩ := reaches_of_end? hd
        have htext : y :: u = taken ++ d.after := hr.after
        have hoffset : d.offset - (Cursor.between last (y :: u)).offset = taken.length := by
          simp only [Cursor.offset, hr.before, List.length_append, List.length_reverse]
          omega
        have hoffset' : (d.extend (x :: t)).offset -
            (Cursor.between last (y :: (u ++ x :: t))).offset = taken.length := hoffset
        have hupTo : (Cursor.between last (y :: (u ++ x :: t))).upTo (d.extend (x :: t)) =
            (Cursor.between last (y :: u)).upTo d := hr.upTo_extend (x :: t)
        simp only [Option.map_some, hoffset, hoffset', hupTo]
        cases taken with
        | nil => exact congrArg (.kept y :: ·) (ih (Nat.zero_le _))
        | cons z taken =>
          have hlength : taken.length ≤ u.length := by
            have := congrArg List.length htext
            simp only [List.length_cons, List.length_append] at this
            omega
          exact congrArg (List.cons (.hit _ d.captured)) (ih hlength)

theorem replace_append_cons (ha : a.avoids x = true) (f : Text → Text) :
    a.replace f (u ++ x :: t) = a.replace f u ++ a.replace f (x :: t) := by
  have hpieces : a.pieces (u ++ x :: t) = a.pieces u ++ a.pieces (x :: t) := by
    rw [pieces, piecesAfter_append_cons ha (Nat.zero_le _), piecesAfter_of_isPlain (isPlain_of_avoids ha)
      0 (lastOver none u)]
    rfl
  rw [replace, hpieces, List.flatMap_append]
  rfl

theorem filter_replace {f : Text → Text} {p : Char → Bool}
    (hhit : ∀ last taken rest, a.Takes last taken rest → taken.filter p = [])
    (hf : ∀ captured, (f captured).filter p = []) (t : Text) :
    (a.replace f t).filter p = t.filter p := by
  have hmem : ∀ text captured, .hit text captured ∈ a.pieces t → text.filter p = [] := by
    intro text captured h
    obtain ⟨last, rest, ht⟩ := takes_of_mem_hit h
    exact hhit last text rest ht
  refine Eq.trans ?_ (congrArg (List.filter p) (flatMap_text_pieces a t))
  rw [replace]
  generalize a.pieces t = pieces at hmem
  induction pieces with
  | nil => rfl
  | cons piece pieces ih =>
    rw [List.flatMap_cons, List.flatMap_cons, List.filter_append, List.filter_append,
      ih fun text captured h ↦ hmem text captured (List.mem_cons_of_mem _ h)]
    cases piece with
    | kept c => rfl
    | hit text captured => rw [hf, Piece.text, hmem text captured List.mem_cons_self]

end Pattern

end CanvasLift
