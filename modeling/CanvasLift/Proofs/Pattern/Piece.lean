import CanvasLift.Proofs.Pattern.Capture

/-!
The pieces of a text. The main statements are that nothing is lost when a text is cut into pieces, so
that a replacement keeps every character outside the matches, and that it adds none but those that
are put in the place of matches.
-/

namespace CanvasLift.Pattern

def Piece.text : Piece → Text
  | .kept c => [c]
  | .hit text _ => text

theorem reaches_of_end? {a : Pattern} {c d : Cursor} (h : a.end? c = some d) :
    ∃ taken, c.Reaches taken d := by
  rw [end?_eq_head?] at h
  obtain ⟨taken, hr, -⟩ := takes_of_mem_ends a (List.mem_of_head? h)
  exact ⟨taken, hr⟩

theorem flatMap_text_piecesAfter (a : Pattern) (skip : Nat) (last : Option Char) (t : Text) :
    (a.piecesAfter skip last t).flatMap Piece.text = t.drop skip := by
  induction t generalizing skip last with
  | nil => simp [piecesAfter]
  | cons x t ih =>
    cases skip with
    | succ skip => rw [piecesAfter, ih, List.drop_succ_cons]
    | zero =>
      rw [piecesAfter]
      split
      · next d hd =>
        obtain ⟨taken, hr⟩ := reaches_of_end? hd
        have htext : x :: t = taken ++ d.after := hr.after
        have hlen : d.offset - (Cursor.between last (x :: t)).offset = taken.length := by
          simp only [Cursor.offset, hr.before, List.length_append, List.length_reverse]
          omega
        split
        · next hzero =>
          rw [List.flatMap_cons, ih]
          rfl
        · next n hn =>
          rw [List.flatMap_cons, ih, Piece.text, hr.upTo]
          cases taken with
          | nil => rw [hlen] at hn; cases hn
          | cons y taken =>
            obtain ⟨rfl, ht⟩ := List.cons.inj htext
            obtain rfl : taken.length = n := Nat.succ.inj (hlen.symm.trans hn)
            have hdrop : t.drop taken.length = d.after := ht ▸ List.drop_left
            rw [hdrop, htext, List.drop_zero]
      · rw [List.flatMap_cons, ih]
        rfl

theorem flatMap_text_pieces (a : Pattern) (t : Text) : (a.pieces t).flatMap Piece.text = t :=
  flatMap_text_piecesAfter a 0 none t

/-- A match lies somewhere in the text, covers something, and is the preferred one at its place. -/
theorem exists_end?_of_mem_hit {a : Pattern} {skip : Nat} {last : Option Char}
    {t text captured : Text} (h : .hit text captured ∈ a.piecesAfter skip last t) :
    ∃ here d, here.after <:+ t ∧ here.captured = [] ∧ a.end? here = some d ∧
      here.Reaches text d ∧ d.captured = captured ∧ text ≠ [] := by
  induction t generalizing skip last with
  | nil => simp [piecesAfter] at h
  | cons y t ih =>
    have hlater : ∀ {skip : Nat} {last : Option Char},
        .hit text captured ∈ a.piecesAfter skip last t → ∃ here d, here.after <:+ y :: t ∧
          here.captured = [] ∧ a.end? here = some d ∧ here.Reaches text d ∧
          d.captured = captured ∧ text ≠ [] := by
      intro skip last h
      obtain ⟨here, d, hsuffix, hfound⟩ := ih h
      exact ⟨here, d, hsuffix.trans (List.suffix_cons y t), hfound⟩
    cases skip with
    | succ skip => exact hlater h
    | zero =>
      rw [piecesAfter] at h
      split at h
      · next d hd =>
        obtain ⟨taken, hr⟩ := reaches_of_end? hd
        split at h
        · obtain h | h := List.mem_cons.1 h
          · cases h
          · exact hlater h
        · next n hn =>
          obtain h | h := List.mem_cons.1 h
          · cases h
            refine ⟨_, d, List.suffix_rfl, rfl, hd, ?_, rfl, ?_⟩
            · rwa [hr.upTo]
            · rw [hr.upTo]
              rintro rfl
              have hlen : d.offset = (Cursor.between last (y :: t)).offset := by
                simp [Cursor.offset, hr.before]
              omega
          · exact hlater h
      · obtain h | h := List.mem_cons.1 h
        · cases h
        · exact hlater h

theorem mem_of_mem_hit {a : Pattern} {skip : Nat} {last : Option Char} {t text captured : Text}
    (h : .hit text captured ∈ a.piecesAfter skip last t) {x : Char} (hx : x ∈ captured) : x ∈ t := by
  obtain ⟨here, d, hsuffix, hnone, hd, -, rfl, -⟩ := exists_end?_of_mem_hit h
  rw [end?_eq_head?] at hd
  obtain hx | hx := mem_of_mem_captured a (List.mem_of_head? hd) hx
  · rw [hnone] at hx
    cases hx
  · exact hsuffix.subset hx

theorem exists_ends_of_mem_hit {a : Pattern} {skip : Nat} {last : Option Char}
    {t text captured : Text} (h : .hit text captured ∈ a.piecesAfter skip last t) :
    ∃ c, ∃ d ∈ a.ends c, d.captured = captured := by
  obtain ⟨here, d, -, -, hd, -, hcaptured, -⟩ := exists_end?_of_mem_hit h
  rw [end?_eq_head?] at hd
  exact ⟨here, d, List.mem_of_head? hd, hcaptured⟩

theorem takes_of_mem_hit {a : Pattern} {skip : Nat} {last : Option Char} {t text captured : Text}
    (h : .hit text captured ∈ a.piecesAfter skip last t) : ∃ last rest, a.Takes last text rest := by
  obtain ⟨here, d, -, -, hd, hr, -, -⟩ := exists_end?_of_mem_hit h
  rw [end?_eq_head?] at hd
  obtain ⟨taken, hr', ht⟩ := takes_of_mem_ends a (List.mem_of_head? hd)
  obtain rfl : taken = text := hr'.upTo.symm.trans hr.upTo
  exact ⟨_, _, ht⟩

theorem exists_ends_of_mem_captures {a : Pattern} {t captured : Text}
    (h : captured ∈ a.captures t) : ∃ c, ∃ d ∈ a.ends c, d.captured = captured := by
  obtain ⟨piece, hpiece, heq⟩ := List.mem_filterMap.1 h
  cases piece with
  | kept c => cases heq
  | hit text c =>
    obtain rfl := Option.some.inj heq
    exact exists_ends_of_mem_hit hpiece

theorem mem_of_mem_captures {a : Pattern} {t captured : Text} (h : captured ∈ a.captures t)
    {x : Char} (hx : x ∈ captured) : x ∈ t := by
  obtain ⟨piece, hpiece, heq⟩ := List.mem_filterMap.1 h
  cases piece with
  | kept c => cases heq
  | hit text c =>
    obtain rfl := Option.some.inj heq
    exact mem_of_mem_hit hpiece hx

theorem not_mem_replace {a : Pattern} {f : Text → Text} {x : Char}
    (hf : ∀ captured, x ∉ captured → x ∉ f captured) {t : Text} (ht : x ∉ t) :
    x ∉ a.replace f t := by
  intro h
  obtain ⟨piece, hpiece, hx⟩ := List.mem_flatMap.1 h
  cases piece with
  | kept c =>
    obtain rfl := List.mem_singleton.1 hx
    refine ht ?_
    rw [← flatMap_text_pieces a t]
    exact List.mem_flatMap.2 ⟨_, hpiece, List.mem_singleton_self _⟩
  | hit text captured => exact hf captured (fun hc ↦ ht (mem_of_mem_hit hpiece hc)) hx

theorem captures_eq_nil_iff {a : Pattern} (ha : ∀ last rest, ¬ a.Takes last [] rest) {t : Text} :
    a.captures t = [] ↔ a.occursIn t = false := by
  rw [← capture?_eq_none_iff, capture?, captures, pieces]
  generalize (none : Option Char) = last
  induction t generalizing last with
  | nil =>
    have hnone : a.end? (.between last []) = none := by
      rw [← Option.not_isSome_iff_eq_none, isSome_end?_iff]
      rintro ⟨taken, rest, heq, ht⟩
      obtain ⟨rfl, -⟩ := List.nil_eq_append_iff.1 heq
      exact ha _ _ ht
    simp [piecesAfter, captureAfter?, hnone]
  | cons x t ih =>
    rw [piecesAfter, captureAfter?]
    cases hd : a.end? (.between last (x :: t)) with
    | none => exact ih (some x)
    | some d =>
      obtain ⟨taken, hr⟩ := reaches_of_end? hd
      dsimp only
      split
      · next hzero =>
        rw [end?_eq_head?] at hd
        obtain ⟨taken', hr', ht⟩ := takes_of_mem_ends a (List.mem_of_head? hd)
        have hlen : taken'.length = 0 := by
          rw [← hzero]
          simp only [Cursor.offset, hr'.before, List.length_append, List.length_reverse]
          omega
        rw [List.length_eq_zero_iff.1 hlen] at ht
        exact absurd ht (ha _ _)
      · simp

theorem replace_eq_self {a : Pattern} {t : Text} (h : a.captures t = []) (f : Text → Text) :
    a.replace f t = t := by
  refine Eq.trans ?_ (flatMap_text_pieces a t)
  rw [replace, List.flatMap_def, List.flatMap_def]
  refine congrArg List.flatten (List.map_congr_left fun piece hpiece ↦ ?_)
  cases piece with
  | kept c => rfl
  | hit text captured =>
    have hcaptured := List.filterMap_eq_nil_iff.1 h _ hpiece
    cases hcaptured

theorem count_replace_add_le {a : Pattern} {f : Text → Text} {x : Char}
    (hhit : ∀ last taken rest, a.Takes last taken rest → x ∈ taken)
    (hf : ∀ captured, x ∉ f captured) (t : Text) :
    (a.replace f t).count x + (a.captures t).length ≤ t.count x := by
  have hmem : ∀ text captured, .hit text captured ∈ a.pieces t → x ∈ text := by
    intro text captured h
    obtain ⟨last, rest, ht⟩ := takes_of_mem_hit h
    exact hhit last text rest ht
  refine Nat.le_trans ?_ (Nat.le_of_eq (congrArg (List.count x) (flatMap_text_pieces a t)))
  rw [replace, captures]
  generalize a.pieces t = pieces at hmem
  induction pieces with
  | nil => exact Nat.le_refl 0
  | cons piece pieces ih =>
    have hrest := ih fun text captured h ↦ hmem text captured (List.mem_cons_of_mem _ h)
    cases piece with
    | kept c =>
      rw [List.flatMap_cons, List.flatMap_cons, List.count_append, List.count_append]
      dsimp only [List.filterMap_cons, Piece.text]
      omega
    | hit text captured =>
      have hpos := List.count_pos_iff.2 (hmem text captured List.mem_cons_self)
      have hzero := List.count_eq_zero.2 (hf captured)
      rw [List.flatMap_cons, List.flatMap_cons, List.count_append, List.count_append, hzero]
      dsimp only [List.filterMap_cons, Piece.text, List.length_cons]
      omega

theorem replace_sublist {a : Pattern} {f : Text → Text} {t : Text}
    (hf : ∀ text captured, .hit text captured ∈ a.pieces t → (f captured).Sublist text) :
    (a.replace f t).Sublist t := by
  refine Eq.subst (motive := (a.replace f t).Sublist) (flatMap_text_pieces a t) ?_
  rw [replace]
  generalize a.pieces t = pieces at hf
  induction pieces with
  | nil => exact .slnil
  | cons piece pieces ih =>
    have ih := ih fun text captured h ↦ hf text captured (List.mem_cons_of_mem _ h)
    rw [List.flatMap_cons, List.flatMap_cons]
    cases piece with
    | kept c => exact (List.Sublist.refl _).append ih
    | hit text captured => exact (hf text captured List.mem_cons_self).append ih

theorem erase_sublist (a : Pattern) (t : Text) : (a.erase t).Sublist t :=
  replace_sublist fun text _ _ ↦ List.nil_sublist text

theorem prefix_of_prefix_replaced {w more : Text} {x : Char} (hx : x ∉ w) {pieces : List Piece}
    (h : w <+: pieces.flatMap fun
      | .kept c => [c]
      | .hit _ _ => x :: more) : w <+: pieces.flatMap Piece.text := by
  induction pieces generalizing w with
  | nil => exact h
  | cons piece pieces ih =>
    cases w with
    | nil => exact List.nil_prefix
    | cons c w =>
      rw [List.flatMap_cons] at h ⊢
      obtain ⟨hc, hx⟩ := not_or.1 (mt List.mem_cons.2 hx)
      cases piece with
      | kept d =>
        dsimp only [Piece.text, List.singleton_append] at h ⊢
        obtain ⟨rfl, hrest⟩ := List.cons_prefix_cons.1 h
        exact List.cons_prefix_cons.2 ⟨rfl, ih hx hrest⟩
      | hit text captured => exact absurd (List.cons_prefix_cons.1 h).1.symm hc

/-- A word that is no part of what is put in the place of matches, and does not reach over its ends,
stood in the text before. -/
theorem infix_of_infix_replace {a : Pattern} {w middle : Text} {x y : Char} (hx : x ∉ w)
    (hy : y ∉ w) (hmiddle : ¬ w <:+: middle) {t : Text}
    (h : w <:+: a.replace (fun _ ↦ x :: (middle ++ [y])) t) : w <:+: t := by
  rw [← flatMap_text_pieces a t]
  rw [replace] at h
  generalize a.pieces t = pieces at h ⊢
  induction pieces with
  | nil => exact h
  | cons piece pieces ih =>
    rw [List.flatMap_cons] at h ⊢
    cases piece with
    | kept c =>
      dsimp only [Piece.text, List.singleton_append] at h ⊢
      obtain h | h := List.infix_cons_iff.1 h
      · cases w with
        | nil => exact List.nil_infix
        | cons d w =>
          obtain ⟨rfl, hrest⟩ := List.cons_prefix_cons.1 h
          refine List.IsPrefix.isInfix (List.cons_prefix_cons.2 ⟨rfl, ?_⟩)
          exact prefix_of_prefix_replaced (fun hm ↦ hx (List.mem_cons_of_mem _ hm)) hrest
      · exact (ih h).trans (List.suffix_cons _ _).isInfix
    | hit text captured =>
      rw [List.cons_append, List.append_assoc, List.singleton_append, ← List.nil_append (x :: _),
        Text.infix_append_cons_iff hx, Text.infix_append_cons_iff hy] at h
      obtain h | h | h := h
      · exact h.trans List.nil_infix
      · exact absurd h hmiddle
      · exact (ih h).trans (List.suffix_append _ _).isInfix

variable {α : Type}

/-- The pieces of a text laid over what the text is read from: what a kept character is read from
stays, and `f` stands for each match. -/
def splice (f : Text → List α) : List Piece → List α → List α
  | [], _ => []
  | .kept _ :: pieces, xs => xs.take 1 ++ splice f pieces (xs.drop 1)
  | .hit text captured :: pieces, xs => f captured ++ splice f pieces (xs.drop text.length)

theorem map_splice {read : α → Char} {f : Text → List α} {pieces : List Piece} {xs : List α}
    (h : pieces.flatMap Piece.text = xs.map read) :
    (splice f pieces xs).map read = pieces.flatMap fun
      | .kept c => [c]
      | .hit _ captured => (f captured).map read := by
  induction pieces generalizing xs with
  | nil => rfl
  | cons piece pieces ih =>
    cases piece with
    | kept c =>
      cases xs with
      | nil => cases h
      | cons x xs =>
        obtain ⟨hc, h⟩ := List.cons.inj h
        rw [splice, List.map_append, List.flatMap_cons]
        dsimp only
        rw [hc, ← ih h]
        rfl
    | hit text captured =>
      have hrest : pieces.flatMap Piece.text = (xs.drop text.length).map read := by
        rw [List.map_drop, ← h, List.flatMap_cons, Piece.text, List.drop_left]
      rw [splice, List.map_append, List.flatMap_cons, ih hrest]

end CanvasLift.Pattern
