import CanvasLift.Text.Blank

namespace CanvasLift.Text

theorem forall_mem_of_all {P : Char → Prop} [DecidablePred P] {t : Text}
    (h : t.all (fun c ↦ decide (P c)) = true) : ∀ c ∈ t, P c := by
  simpa using h

theorem splitOn_ne_nil {α : Type} [DecidableEq α] (sep : α) (t : List α) : splitOn sep t ≠ [] := by
  cases t with
  | nil => exact List.cons_ne_nil _ _
  | cons c rest =>
    rw [splitOn]
    split
    · exact List.cons_ne_nil _ _
    · split
      · exact List.cons_ne_nil _ _
      · exact List.cons_ne_nil _ _

theorem splitOn_of_not_mem {α : Type} [DecidableEq α] {sep : α} {t : List α} (h : sep ∉ t) :
    splitOn sep t = [t] := by
  induction t with
  | nil => rfl
  | cons c rest ih =>
    have hne : c ≠ sep := fun heq ↦ h (heq ▸ List.mem_cons_self)
    rw [splitOn, if_neg hne, ih fun hm ↦ h (List.mem_cons_of_mem _ hm)]

theorem splitOn_append (sep : Char) (u v : Text) :
    splitOn sep (u ++ sep :: v) = splitOn sep u ++ splitOn sep v := by
  induction u with
  | nil => simp [splitOn]
  | cons c u ih =>
    rw [List.cons_append, splitOn, splitOn, ih]
    split
    · rfl
    · cases hu : splitOn sep u with
      | nil => exact absurd hu (splitOn_ne_nil sep u)
      | cons piece pieces => rfl

theorem splitOn_append_of_not_mem {sep : Char} {u : Text} (h : sep ∉ u) (v : Text) :
    splitOn sep (u ++ sep :: v) = u :: splitOn sep v := by
  rw [splitOn_append, splitOn_of_not_mem h]
  rfl

theorem exists_splitOn_eq (sep : Char) (t : Text) :
    ∃ pieces, splitOn sep t = t.takeWhile (· ≠ sep) :: pieces := by
  induction t with
  | nil => exact ⟨[], rfl⟩
  | cons c rest ih =>
    obtain ⟨pieces, hrest⟩ := ih
    rw [splitOn, hrest]
    split
    · next h => exact ⟨_, by rw [List.takeWhile_cons_of_neg (by simpa using h)]⟩
    · next h => exact ⟨pieces, by rw [List.takeWhile_cons_of_pos (by simpa using h)]⟩

theorem flatten_splitOn (sep : Char) (t : Text) : (splitOn sep t).flatten = t.filter (· ≠ sep) := by
  induction t with
  | nil => rfl
  | cons c rest ih =>
    rw [splitOn]
    split
    · next hc =>
      rw [List.filter_cons_of_neg (by simpa using hc), ← ih]
      rfl
    · next hc =>
      obtain ⟨piece, pieces, hpieces⟩ := List.exists_cons_of_ne_nil (splitOn_ne_nil sep rest)
      rw [hpieces] at ih ⊢
      rw [List.filter_cons_of_pos (by simpa using hc), ← ih]
      rfl

theorem mem_of_mem_splitOn {c sep : Char} {piece t : Text} (hp : piece ∈ splitOn sep t)
    (hc : c ∈ piece) : c ∈ t ∧ c ≠ sep := by
  induction t generalizing piece with
  | nil =>
    obtain rfl := List.mem_singleton.1 hp
    cases hc
  | cons d rest ih =>
    rw [splitOn] at hp
    split at hp
    · obtain rfl | hp := List.mem_cons.1 hp
      · cases hc
      · exact ⟨List.mem_cons_of_mem _ (ih hp hc).1, (ih hp hc).2⟩
    · next hd =>
      split at hp
      · next hrest => exact absurd hrest (splitOn_ne_nil sep rest)
      · next first pieces hrest =>
        obtain rfl | hp := List.mem_cons.1 hp
        · obtain rfl | hc := List.mem_cons.1 hc
          · exact ⟨List.mem_cons_self, hd⟩
          · have h := ih (hrest ▸ List.mem_cons_self) hc
            exact ⟨List.mem_cons_of_mem _ h.1, h.2⟩
        · have h := ih (hrest ▸ List.mem_cons_of_mem _ hp) hc
          exact ⟨List.mem_cons_of_mem _ h.1, h.2⟩

theorem append_cons_inj {α : Type} {p : α → Bool} {u v s t : List α} {x y : α}
    (hu : ∀ c ∈ u, p c = true) (hv : ∀ c ∈ v, p c = true) (hx : p x = false) (hy : p y = false)
    (h : u ++ x :: s = v ++ y :: t) : u = v ∧ x :: s = y :: t := by
  have htake := congrArg (List.takeWhile p) h
  rw [List.takeWhile_append_of_pos hu, List.takeWhile_append_of_pos hv,
    List.takeWhile_cons_of_neg (by simp [hx]), List.takeWhile_cons_of_neg (by simp [hy]),
    List.append_nil, List.append_nil] at htake
  subst htake
  exact ⟨rfl, List.append_cancel_left h⟩

theorem eq_of_append_cons {u v s t : Text} {x : Char} (hu : x ∉ u) (hv : x ∉ v)
    (h : u ++ x :: s = v ++ x :: t) : u = v := by
  have hstop : ∀ {w : Text}, x ∉ w → ∀ c ∈ w, decide (c ≠ x) = true := by
    intro w hw c hc
    rw [decide_eq_true_iff]
    rintro rfl
    exact hw hc
  exact (append_cons_inj (hstop hu) (hstop hv) (by simp) (by simp) h).1

theorem append_inj_of_head {p : Char → Bool} {u v s t : Text} (hu : ∀ c ∈ u, p c = true)
    (hv : ∀ c ∈ v, p c = true) (hs : ∃ c ∈ s.head?, p c = false) (ht : ∃ c ∈ t.head?, p c = false)
    (h : u ++ s = v ++ t) : u = v ∧ s = t := by
  obtain ⟨x, hx, hpx⟩ := hs
  obtain ⟨y, hy, hpy⟩ := ht
  obtain ⟨s, rfl⟩ := List.head?_eq_some_iff.1 hx
  obtain ⟨t, rfl⟩ := List.head?_eq_some_iff.1 hy
  exact append_cons_inj hu hv hpx hpy h

theorem takeWhile_append_of_head {p : Char → Bool} {front rest : Text} (hfront : ∀ c ∈ front, p c = true)
    (hrest : ∀ c ∈ rest.head?, p c = false) :
    (front ++ rest).takeWhile p = front ∧ (front ++ rest).dropWhile p = rest := by
  rw [List.takeWhile_append_of_pos hfront, List.dropWhile_append_of_pos hfront]
  cases rest with
  | nil => exact ⟨List.append_nil front, rfl⟩
  | cons c rest =>
    have hc : ¬ p c = true := Bool.not_eq_true _ ▸ hrest c rfl
    rw [List.takeWhile_cons_of_neg hc, List.dropWhile_cons_of_neg hc, List.append_nil]
    exact ⟨rfl, rfl⟩

theorem infix_append_cons_iff {w u v : Text} {x : Char} (hx : x ∉ w) :
    w <:+: u ++ x :: v ↔ w <:+: u ∨ w <:+: v := by
  constructor
  · intro h
    obtain h | h | ⟨left, right, rfl, hleft, hright⟩ := List.infix_append_iff.1 h
    · exact .inl h
    · obtain h | h := List.infix_cons_iff.1 h
      · cases w with
        | nil => exact .inr List.nil_infix
        | cons y w => exact absurd ((List.cons_prefix_cons.1 h).1 ▸ List.mem_cons_self) hx
      · exact .inr h
    · cases right with
      | nil =>
        rw [List.append_nil]
        exact .inl hleft.isInfix
      | cons y right =>
        obtain ⟨rfl, -⟩ := List.cons_prefix_cons.1 hright
        exact absurd (List.mem_append_right left List.mem_cons_self) hx
  · intro h
    obtain h | h := h
    · exact h.trans ⟨[], x :: v, rfl⟩
    · exact h.trans ⟨u ++ [x], [], by simp⟩

theorem concat_infix_append_cons_iff {w u v : Text} {c x : Char} (hx : x ∉ w) (hne : w ≠ []) :
    w ++ [c] <:+: u ++ x :: v ↔ w ++ [c] <:+: u ++ [x] ∨ w ++ [c] <:+: v := by
  constructor
  · intro h
    obtain h | h | ⟨left, right, heq, hleft, hright⟩ := List.infix_append_iff.1 h
    · exact .inl (h.trans (List.prefix_append _ _).isInfix)
    · obtain h | h := List.infix_cons_iff.1 h
      · obtain ⟨y, w, rfl⟩ := List.exists_cons_of_ne_nil hne
        exact absurd ((List.cons_prefix_cons.1 h).1 ▸ List.mem_cons_self) hx
      · exact .inr h
    · obtain rfl | ⟨right, last, rfl⟩ := List.eq_nil_or_concat right
      · rw [List.append_nil] at heq
        exact .inl (heq ▸ hleft.isInfix.trans (List.prefix_append _ _).isInfix)
      · rw [List.concat_eq_append] at heq hright
        rw [← List.append_assoc] at heq
        obtain ⟨rfl, hc⟩ := List.append_inj' heq rfl
        cases right with
        | nil =>
          obtain ⟨rfl, -⟩ := List.cons_prefix_cons.1 hright
          obtain ⟨front, rfl⟩ := hleft
          rw [hc]
          exact .inl ⟨front, [], by simp⟩
        | cons y right =>
          obtain ⟨rfl, -⟩ := List.cons_prefix_cons.1 hright
          exact absurd (List.mem_append_right left List.mem_cons_self) hx
  · rintro (h | h)
    · exact h.trans ⟨[], v, by simp⟩
    · exact h.trans ⟨u ++ [x], [], by simp⟩

theorem infix_between {w u v t : Text} (hu : ∃ c ∈ u.getLast?, c ∉ w) (ht : ∃ c ∈ t.head?, c ∉ w)
    (h : w <:+: u ++ (v ++ t)) : w <:+: u ∨ w <:+: v ∨ w <:+: t := by
  obtain ⟨c, hc, hcw⟩ := hu
  obtain ⟨d, hd, hdw⟩ := ht
  obtain ⟨u, rfl⟩ := List.getLast?_eq_some_iff.1 hc
  obtain ⟨t, rfl⟩ := List.head?_eq_some_iff.1 hd
  rw [List.append_assoc, List.singleton_append, infix_append_cons_iff hcw,
    infix_append_cons_iff hdw] at h
  obtain h | h | h := h
  · exact .inl (h.trans (List.prefix_append _ _).isInfix)
  · exact .inr (.inl h)
  · exact .inr (.inr (h.trans (List.suffix_cons _ _).isInfix))

theorem dropFront?_eq_some_iff {α : Type} [DecidableEq α] {front t rest : List α} :
    dropFront? front t = some rest ↔ t = front ++ rest := by
  induction front generalizing t with
  | nil => simp [dropFront?]
  | cons f front ih =>
    cases t with
    | nil => simp [dropFront?]
    | cons c t =>
      by_cases hc : f = c
      · simp [dropFront?, hc, ih]
      · simp [dropFront?, hc, Ne.symm hc]

theorem cut?_append_cons {sep : Char} {u : Text} (h : sep ∉ u) (v : Text) :
    cut? sep (u ++ sep :: v) = some (u, v) := by
  have hu : ∀ c ∈ u, decide (c ≠ sep) = true := by
    intro c hc
    rw [decide_eq_true_iff]
    rintro rfl
    exact h hc
  rw [cut?, List.dropWhile_append_of_pos hu, List.takeWhile_append_of_pos hu,
    List.dropWhile_cons_of_neg (by simp), List.takeWhile_cons_of_neg (by simp), List.append_nil]

theorem joinWith_singleton {α : Type} (sep t : List α) : joinWith sep [t] = t := by
  simp [joinWith, List.intercalate]

theorem joinWith_cons {α : Type} (sep t next : List α) (ts : List (List α)) :
    joinWith sep (t :: next :: ts) = t ++ (sep ++ joinWith sep (next :: ts)) := by
  simp [joinWith, List.intercalate]

theorem exists_joinWith_cons {α : Type} (sep t : List α) (ts : List (List α)) :
    ∃ tail, joinWith sep (t :: ts) = t ++ tail := by
  cases ts with
  | nil => exact ⟨[], by rw [joinWith_singleton, List.append_nil]⟩
  | cons next ts => exact ⟨_, joinWith_cons sep t next ts⟩

theorem joinWith_append_last {α : Type} (sep : List α) (names : List (List α)) (name more : List α) :
    joinWith sep (names ++ [name ++ more]) = joinWith sep (names ++ [name]) ++ more := by
  simp only [joinWith]
  induction names with
  | nil => simp
  | cons first names ih =>
    have hcons : ∀ last : List α, List.intercalate sep (first :: (names ++ [last])) =
        first ++ (sep ++ List.intercalate sep (names ++ [last])) := by
      intro last
      cases names with
      | nil => simp [List.intercalate]
      | cons second names => simp [List.intercalate]
    rw [List.cons_append, List.cons_append, hcons, hcons, ih]
    simp only [List.append_assoc]

theorem prefix_joinWith_append {α : Type} (sep : List α) (names more : List (List α)) :
    joinWith sep names <+: joinWith sep (names ++ more) := by
  induction names with
  | nil => exact List.nil_prefix
  | cons name names ih =>
    cases names with
    | nil =>
      obtain ⟨tail, htail⟩ := exists_joinWith_cons sep name more
      rw [List.singleton_append, htail, joinWith_singleton]
      exact List.prefix_append _ _
    | cons next names =>
      rw [List.cons_append, List.cons_append, joinWith_cons, joinWith_cons, ← List.cons_append]
      exact (List.prefix_append_right_inj _).2 ((List.prefix_append_right_inj _).2 ih)

theorem infix_joinWith_of_mem {α : Type} {sep part : List α} {parts : List (List α)}
    (h : part ∈ parts) : part <:+: joinWith sep parts := by
  induction parts with
  | nil => cases h
  | cons first parts ih =>
    cases parts with
    | nil =>
      obtain rfl := List.mem_singleton.1 h
      exact ⟨[], [], by simp [joinWith_singleton]⟩
    | cons next parts =>
      rw [joinWith_cons]
      obtain rfl | h := List.mem_cons.1 h
      · exact (List.prefix_append _ _).isInfix
      · exact (ih h).trans ⟨first ++ sep, [], by simp⟩

theorem not_mem_joinWith {α : Type} {x : α} {sep : List α} (hsep : x ∉ sep) {ts : List (List α)}
    (h : ∀ t ∈ ts, x ∉ t) : x ∉ joinWith sep ts := by
  induction ts with
  | nil => exact List.not_mem_nil
  | cons t ts ih =>
    obtain ⟨ht, h⟩ := List.forall_mem_cons.1 h
    cases ts with
    | nil => rwa [joinWith_singleton]
    | cons next ts =>
      rw [joinWith_cons, List.mem_append, List.mem_append, not_or, not_or]
      exact ⟨ht, hsep, ih h⟩

theorem not_mem_lines {x : Char} {t : Text} (h : x ∉ t) : ∀ line ∈ lines t, x ∉ line :=
  fun _ hline hx ↦ h (mem_of_mem_splitOn hline hx).1

theorem unlines_singleton (line : Text) : unlines [line] = line := joinWith_singleton ['\n'] line

theorem unlines_cons (line next : Text) (ls : List Text) :
    unlines (line :: next :: ls) = line ++ '\n' :: unlines (next :: ls) :=
  joinWith_cons ['\n'] line next ls

theorem unlines_append {ls ls' : List Text} (h : ls ≠ []) (h' : ls' ≠ []) :
    unlines (ls ++ ls') = unlines ls ++ '\n' :: unlines ls' := by
  induction ls with
  | nil => exact absurd rfl h
  | cons line ls ih =>
    cases ls with
    | nil =>
      obtain ⟨next, rest, rfl⟩ := List.exists_cons_of_ne_nil h'
      rw [List.singleton_append, unlines_cons, unlines_singleton]
    | cons next ls =>
      rw [List.cons_append, List.cons_append, unlines_cons, unlines_cons, ← List.cons_append,
        ih (List.cons_ne_nil _ _), List.append_assoc, List.cons_append]

theorem infix_unlines {w : Text} (hw : '\n' ∉ w) {ls : List Text} (hne : ls ≠ [])
    (h : w <:+: unlines ls) : ∃ line ∈ ls, w <:+: line := by
  induction ls with
  | nil => exact absurd rfl hne
  | cons line ls ih =>
    cases ls with
    | nil => exact ⟨line, List.mem_cons_self, by rwa [unlines_singleton] at h⟩
    | cons next ls =>
      rw [unlines_cons, infix_append_cons_iff hw] at h
      obtain h | h := h
      · exact ⟨line, List.mem_cons_self, h⟩
      · obtain ⟨found, hmem, h⟩ := ih (List.cons_ne_nil _ _) h
        exact ⟨found, List.mem_cons_of_mem _ hmem, h⟩

theorem concat_infix_unlines_iff {w : Text} {c : Char} (hw : '\n' ∉ w) (hne : w ≠ [])
    {ls : List Text} (hls : ls ≠ []) :
    w ++ [c] <:+: unlines ls ++ ['\n'] ↔ ∃ line ∈ ls, w ++ [c] <:+: line ++ ['\n'] := by
  induction ls with
  | nil => exact absurd rfl hls
  | cons line ls ih =>
    cases ls with
    | nil => simp [unlines_singleton]
    | cons next ls =>
      rw [unlines_cons, List.append_assoc, List.cons_append, concat_infix_append_cons_iff hw hne,
        ih (List.cons_ne_nil _ _)]
      simp

theorem exists_unlines_eq (above : List Text) (line next : Text) (below : List Text) :
    ∃ front, unlines (above ++ line :: next :: below) =
      front ++ (line ++ '\n' :: unlines (next :: below)) := by
  induction above with
  | nil => exact ⟨[], unlines_cons line next below⟩
  | cons first above ih =>
    obtain ⟨front, hfront⟩ := ih
    obtain ⟨second, rest, hrest⟩ : ∃ second rest, above ++ line :: next :: below = second :: rest :=
      List.exists_cons_of_ne_nil (by simp)
    refine ⟨first ++ '\n' :: front, ?_⟩
    rw [List.cons_append, hrest, unlines_cons, ← hrest, hfront]
    simp only [List.append_assoc, List.cons_append]

theorem lines_unlines {ls : List Text} (hne : ls ≠ []) (h : ∀ line ∈ ls, '\n' ∉ line) :
    lines (unlines ls) = ls := by
  induction ls with
  | nil => exact absurd rfl hne
  | cons line ls ih =>
    obtain ⟨hline, h⟩ := List.forall_mem_cons.1 h
    cases ls with
    | nil => rw [unlines_singleton, lines, splitOn_of_not_mem hline]
    | cons next ls =>
      rw [unlines_cons, lines, splitOn_append_of_not_mem hline]
      exact congrArg (line :: ·) (ih (List.cons_ne_nil _ _) h)

theorem unlines_lines (t : Text) : unlines (lines t) = t := by
  rw [lines]
  induction t with
  | nil => rfl
  | cons c t ih =>
    rw [splitOn]
    obtain ⟨line, ls, hls⟩ := List.exists_cons_of_ne_nil (splitOn_ne_nil '\n' t)
    rw [hls] at ih ⊢
    split
    · next hc => rw [unlines_cons, ih, hc, List.nil_append]
    · cases ls with
      | nil =>
        rw [unlines_singleton] at ih ⊢
        rw [ih]
      | cons next ls =>
        rw [unlines_cons] at ih ⊢
        rw [List.cons_append, ih]

theorem allBlank_unlines_iff {ls : List Text} :
    allBlank (unlines ls) = true ↔ ∀ line ∈ ls, allBlank line = true := by
  induction ls with
  | nil => simp [unlines, joinWith, allBlank]
  | cons line ls ih =>
    cases ls with
    | nil => simp [unlines_singleton]
    | cons next ls =>
      have hbreak : isBlank '\n' = true := by decide
      rw [List.forall_mem_cons, ← ih, unlines_cons]
      simp [allBlank, hbreak]

theorem infix_iff_exists_line {w t : Text} (hw : '\n' ∉ w) :
    w <:+: t ↔ ∃ line ∈ lines t, w <:+: line := by
  constructor
  · intro h
    rw [← unlines_lines t] at h
    exact infix_unlines hw (splitOn_ne_nil '\n' t) h
  · rintro ⟨line, hline, h⟩
    rw [← unlines_lines t]
    exact h.trans (infix_joinWith_of_mem hline)

theorem head?_eq_of_prefix {w t : Text} {c : Char} (h : w <+: t) (hc : w.head? = some c) :
    t.head? = some c := by
  obtain ⟨rest, rfl⟩ := h
  rw [List.head?_append, hc]
  rfl

/-- The first place where a word can stand is the first of its first characters. -/
theorem cons_infix_append_cons {w u v : Text} {x : Char} (hx : x ∉ u)
    (h : x :: w <:+: u ++ x :: v) : w <+: v ∨ x :: w <:+: v := by
  induction u with
  | nil =>
    obtain h | h := List.infix_cons_iff.1 h
    · exact .inl (List.cons_prefix_cons.1 h).2
    · exact .inr h
  | cons y u ih =>
    obtain h | h := List.infix_cons_iff.1 h
    · exact absurd ((List.cons_prefix_cons.1 h).1 ▸ List.mem_cons_self) hx
    · exact ih (fun hm ↦ hx (List.mem_cons_of_mem _ hm)) h

theorem head?_trimStart_append {c : Char} {u : Text} (h : (trimStart u).head? = some c)
    (v : Text) : (trimStart (u ++ v)).head? = some c := by
  induction u with
  | nil => cases h
  | cons d u ih =>
    rw [trimStart, List.cons_append] at *
    by_cases hd : isBlank d = true
    · rw [List.dropWhile_cons_of_pos hd] at h ⊢
      exact ih h
    · rw [List.dropWhile_cons_of_neg hd] at h ⊢
      exact h

/-- A word that only blank characters part from the start of a line opens that line. -/
theorem exists_line_of_blanks {u w : Text} (hu : ∀ c ∈ u, isBlank c = true)
    (hw : ∀ c ∈ w, c ≠ '\n') (hhead : ∀ c ∈ w.head?, isBlank c = false) (rest : Text) :
    ∃ line ∈ lines (u ++ (w ++ rest)), w <+: trimStart line := by
  induction u with
  | nil =>
    obtain ⟨pieces, hlines⟩ := exists_splitOn_eq '\n' (w ++ rest)
    refine ⟨_, by rw [List.nil_append, lines, hlines]; exact List.mem_cons_self, ?_⟩
    rw [List.takeWhile_append_of_pos (by simpa using hw)]
    cases w with
    | nil => exact List.nil_prefix
    | cons c w =>
      rw [trimStart, List.cons_append, List.dropWhile_cons_of_neg (by simp [hhead c rfl])]
      exact List.prefix_append (c :: w) _
  | cons c u ih =>
    obtain ⟨line, hline, hword⟩ := ih fun d hd ↦ hu d (List.mem_cons_of_mem _ hd)
    rw [lines, List.cons_append, splitOn]
    split
    · exact ⟨line, List.mem_cons_of_mem _ hline, hword⟩
    · split
      · next hnil => exact absurd hnil (splitOn_ne_nil _ _)
      · next piece pieces hpieces =>
        rw [lines, hpieces] at hline
        obtain rfl | hline := List.mem_cons.1 hline
        · refine ⟨c :: line, List.mem_cons_self, ?_⟩
          rw [trimStart, List.dropWhile_cons_of_pos (hu c List.mem_cons_self)]
          exact hword
        · exact ⟨line, List.mem_cons_of_mem _ hline, hword⟩

theorem exists_line_of_lineStart {front : Text} (hfront : ∀ c ∈ front.getLast?, c = '\n')
    {t line : Text} (h : line ∈ lines t) : line ∈ lines (front ++ t) := by
  obtain rfl | ⟨front, c, rfl⟩ := List.eq_nil_or_concat front
  · exact h
  · obtain rfl := hfront c (by simp)
    rw [List.concat_eq_append, List.append_assoc, List.singleton_append, lines, splitOn_append]
    exact List.mem_append_right _ h

theorem prefix_of_prefix_append_cons {w u v : Text} {x : Char} (hx : x ∉ w) (h : w <+: u ++ x :: v) :
    w <+: u := by
  induction w generalizing u with
  | nil => exact List.nil_prefix
  | cons y w ih =>
    obtain ⟨hy, hw⟩ := not_or.1 (mt List.mem_cons.2 hx)
    cases u with
    | nil => exact absurd (List.cons_prefix_cons.1 h).1.symm hy
    | cons z u =>
      obtain ⟨rfl, hrest⟩ := List.cons_prefix_cons.1 h
      exact List.cons_prefix_cons.2 ⟨rfl, ih hw hrest⟩

end CanvasLift.Text
