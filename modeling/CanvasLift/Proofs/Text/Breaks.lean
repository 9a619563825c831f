import CanvasLift.Proofs.Text.Parts

namespace CanvasLift.Text

/-- A character of a file as it is read: whichever way a line breaks, one line feed is read. -/
inductive Sign
  | plain (c : Char) (h : c ≠ '\r')
  | carriageReturn
  | carriageReturnLineFeed

namespace Sign

def read : Sign → Char
  | plain c _ => c
  | carriageReturn | carriageReturnLineFeed => '\n'

def stored : Sign → Text
  | plain c _ => [c]
  | carriageReturn => ['\r']
  | carriageReturnLineFeed => ['\r', '\n']

def readAll (signs : List Sign) : Text := signs.map read

def storedAll (signs : List Sign) : Text := signs.flatMap stored

def ofChar (c : Char) : Sign := if h : c = '\r' then carriageReturn else plain c h

def ofText : Text → List Sign
  | [] => []
  | '\r' :: '\n' :: rest => carriageReturnLineFeed :: ofText rest
  | c :: rest => ofChar c :: ofText rest

theorem read_ofChar (c : Char) : (ofChar c).read = if c = '\r' then '\n' else c := by
  rw [ofChar]
  split
  · rfl
  · rfl

theorem stored_ofChar (c : Char) : (ofChar c).stored = [c] := by
  rw [ofChar]
  split
  · next h => rw [h]; rfl
  · rfl

theorem readAll_ofText (t : Text) : readAll (ofText t) = unifyBreaks t := by
  fun_induction ofText t with
  | case1 => rfl
  | case2 rest ih =>
    rw [unifyBreaks, ← ih]
    rfl
  | case3 c rest hpair ih =>
    rw [unifyBreaks, ← ih, ← read_ofChar]
    · rfl
    · exact hpair

theorem storedAll_ofText (t : Text) : storedAll (ofText t) = t := by
  fun_induction ofText t with
  | case1 => rfl
  | case2 rest ih => exact congrArg (['\r', '\n'] ++ ·) ih
  | case3 c rest hpair ih =>
    rw [storedAll, List.flatMap_cons, stored_ofChar]
    exact congrArg ([c] ++ ·) ih

theorem read_ne (x : Sign) : x.read ≠ '\r' := by
  cases x with
  | plain c h => exact h
  | carriageReturn => decide
  | carriageReturnLineFeed => decide

theorem not_mem_readAll (signs : List Sign) : '\r' ∉ readAll signs := by
  intro h
  obtain ⟨x, -, hx⟩ := List.mem_map.1 h
  exact x.read_ne hx

theorem stored_eq_of_not_mem {x : Sign} (h : '\r' ∉ x.stored) : x.stored = [x.read] := by
  cases x with
  | plain c => rfl
  | carriageReturn => exact absurd (List.mem_singleton_self _) h
  | carriageReturnLineFeed => exact absurd List.mem_cons_self h

theorem storedAll_eq_readAll_iff (signs : List Sign) :
    storedAll signs = readAll signs ↔ '\r' ∉ storedAll signs := by
  constructor
  · intro h
    rw [h]
    exact not_mem_readAll signs
  · intro h
    induction signs with
    | nil => rfl
    | cons x signs ih =>
      rw [storedAll, List.flatMap_cons, List.mem_append, not_or] at h
      rw [storedAll, List.flatMap_cons, stored_eq_of_not_mem h.1]
      exact congrArg ([x.read] ++ ·) (ih h.2)

end Sign

theorem not_mem_unifyBreaks (t : Text) : '\r' ∉ unifyBreaks t := by
  rw [← Sign.readAll_ofText]
  exact Sign.not_mem_readAll _

theorem unifyBreaks_of_not_mem {t : Text} (h : '\r' ∉ t) : unifyBreaks t = t := by
  rw [← Sign.storedAll_ofText t, ← Sign.storedAll_eq_readAll_iff] at h
  rw [← Sign.readAll_ofText, ← h, Sign.storedAll_ofText]

theorem unifyBreaks_append {u : Text} (h : '\r' ∉ u) (v : Text) :
    unifyBreaks (u ++ v) = u ++ unifyBreaks v := by
  induction u with
  | nil => rfl
  | cons c u ih =>
    obtain ⟨hc, hu⟩ := not_or.1 (mt List.mem_cons.2 h)
    rw [List.cons_append, unifyBreaks, ih hu, if_neg fun heq ↦ hc heq.symm, List.cons_append]
    rintro rest heq -
    exact hc heq.symm

theorem joinBreaks_of_not_mem {t : Text} (h : '\r' ∉ t) : joinBreaks t = t := by
  induction t with
  | nil => rfl
  | cons c t ih =>
    obtain ⟨hc, ht⟩ := not_or.1 (mt List.mem_cons.2 h)
    rw [joinBreaks, ih ht]
    rintro rest heq -
    exact hc heq.symm

inductive Break
  | lineFeed
  | carriageReturnLineFeed

def Break.text : Break → Text
  | lineFeed => ['\n']
  | carriageReturnLineFeed => ['\r', '\n']

/-- `t` writes lines down, with each break in a form of its own. -/
inductive Writes : List Text → (t : Text) → Prop
  | last {line : Text} (hr : '\r' ∉ line) (hn : '\n' ∉ line) : Writes [line] line
  | cons {line t : Text} {ls : List Text} (b : Break) (hr : '\r' ∉ line) (hn : '\n' ∉ line)
      (h : Writes ls t) : Writes (line :: ls) (line ++ (b.text ++ t))

theorem lines_unifyBreaks_of_writes {ls : List Text} {t : Text} (h : Writes ls t) :
    lines (unifyBreaks t) = ls := by
  induction h with
  | last hr hn => rw [unifyBreaks_of_not_mem hr, lines, splitOn_of_not_mem hn]
  | @cons line t ls b hr hn h ih =>
    have hbreak : unifyBreaks (b.text ++ t) = '\n' :: unifyBreaks t := by
      cases b with
      | lineFeed => rfl
      | carriageReturnLineFeed => rfl
    rw [unifyBreaks_append hr, hbreak, lines, splitOn_append_of_not_mem hn]
    exact congrArg (line :: ·) ih

theorem Writes.not_mem {ls : List Text} {t : Text} (h : Writes ls t) :
    ∀ line ∈ ls, '\r' ∉ line := by
  induction h with
  | last hr => simpa using hr
  | cons b hr hn h ih => exact List.forall_mem_cons.2 ⟨hr, ih⟩

theorem Writes.lineFeed_not_mem {ls : List Text} {t : Text} (h : Writes ls t) :
    ∀ line ∈ ls, '\n' ∉ line := by
  induction h with
  | last hr hn => simpa using hn
  | cons b hr hn h ih => exact List.forall_mem_cons.2 ⟨hn, ih⟩

theorem lines_joinBreaks_unlines {ls : List Text} (hne : ls ≠ []) (hr : ∀ line ∈ ls, '\r' ∉ line)
    (hn : ∀ line ∈ ls, '\n' ∉ line) : lines (joinBreaks (unlines ls)) = ls := by
  have hblock : '\r' ∉ unlines ls := not_mem_joinWith (by decide) hr
  rw [joinBreaks_of_not_mem hblock, lines_unlines hne hn]

end CanvasLift.Text
