import CanvasLift.Canvas.Callback
import CanvasLift.Proofs.Canvas.Attributes

namespace CanvasLift.Canvas

open Pattern

variable {u v t line handler part : Text}

def callback (handler : Text) : Attribute := .braced "onCollapsedChange" handler

/-- A handler that no brace closes, on one line. -/
def IsFlat (handler : Text) : Prop := handler ≠ [] ∧ ∀ c ∈ handler, c ≠ '\x7d' ∧ c ≠ '\n'

def callbackLead : Text := "onCollapsedChange" ++ ['=']

theorem text_callback (handler : Text) :
    (callback handler).text = callbackLead ++ '\x7b' :: (handler ++ ['\x7d']) :=
  (List.append_assoc "onCollapsedChange" ['='] _).symm

/-- A text ends in the midst of a handler. -/
def LeavesOpen (t : Text) : Prop :=
  ∃ front inside, t = front ++ (callbackLead ++ '\x7b' :: inside) ∧
    ∀ c ∈ inside, c ≠ '\x7d' ∧ c ≠ '\n'

theorem takes_collapseCallback {last : Option Char} {taken rest : Text} :
    collapseCallback.Takes last taken rest ↔
      ∃ handler, taken = (callback handler).text ∧ IsFlat handler := by
  have hlead : ("onCollapsedChange=" : Text) = callbackLead := by decide
  rw [collapseCallback, hlead]
  constructor
  · intro h
    obtain ⟨word, _, rfl, hword, inside, _, rfl, hinside, rfl⟩ := h
    obtain ⟨handler, rfl, hflat⟩ := takes_braced.1 hinside
    rw [takes_literal.1 hword, List.append_nil]
    exact ⟨handler, (text_callback handler).symm, hflat⟩
  · intro h
    obtain ⟨handler, rfl, hflat⟩ := h
    rw [text_callback]
    exact takes_chain_append (takes_literal.2 rfl)
      (takes_chain_singleton (takes_braced.2 ⟨handler, rfl, hflat⟩))

theorem finds_collapseCallback :
    Finds collapseCallback (fun _ ↦ false) "onCollapsedChange" '\x7b' '\x7d' IsFlat where
  isPlain := by decide
  takes_iff := by
    intro last taken rest
    rw [takes_collapseCallback]
    constructor
    · intro h
      obtain ⟨handler, rfl, hflat⟩ := h
      exact ⟨[], handler, rfl, by simp, hflat⟩
    · intro h
      obtain ⟨front, handler, rfl, hfront, hflat⟩ := h
      obtain rfl : front = [] := List.eq_nil_iff_forall_not_mem.2 fun c hc ↦ by cases hfront c hc
      exact ⟨handler, rfl, hflat⟩
  isPadding_of := fun _ hc ↦ by cases hc
  ne_nil := by decide
  isLabelChar_of_mem := Text.forall_mem_of_all (by decide)
  not_mem_of := fun handler hflat hmem ↦ (hflat.2 _ hmem).1 rfl

theorem not_takes_nil (last : Option Char) (rest : Text) : ¬ collapseCallback.Takes last [] rest := by
  intro h
  obtain ⟨handler, hnil, -⟩ := takes_collapseCallback.1 h
  cases hnil

theorem exists_of_mem_parts (h : part ∈ collapseCallback.parts t) :
    ∃ handler, part = (callback handler).text ∧ IsFlat handler := by
  obtain ⟨last, rest, htakes⟩ := takes_of_mem_parts h
  exact takes_collapseCallback.1 htakes

theorem normalizeCallbacks_found (h : IsFlat handler) (rest : Text) :
    normalizeCallbacks ((callback handler).text ++ rest) = idleCallback ++ normalizeCallbacks rest :=
  replace_append_of_takes finds_collapseCallback.isPlain finds_collapseCallback.unique
    (List.cons_ne_nil _ _) (takes_collapseCallback.2 ⟨handler, rfl, h⟩) fun _ _ ↦ rfl

/-- Two parts of a line are normalized on their own if no match reaches from one into the other. -/
theorem normalizeCallbacks_append
    (h : ∀ w, w <:+ u → w ≠ [] → ∀ handler rest, IsFlat handler →
      w ++ v = (callback handler).text ++ rest → (callback handler).text <+: w) :
    normalizeCallbacks (u ++ v) = normalizeCallbacks u ++ normalizeCallbacks v := by
  have hpieces : collapseCallback.pieces (u ++ v) =
      collapseCallback.pieces u ++ collapseCallback.pieces v := by
    refine pieces_append finds_collapseCallback.isPlain (by decide) finds_collapseCallback.unique
      (not_takes_nil none) fun w hw hne taken rest heq htakes ↦ ?_
    obtain ⟨handler, rfl, hflat⟩ := takes_collapseCallback.1 htakes
    exact h w hw hne handler rest hflat heq
  rw [normalizeCallbacks, replace, hpieces, List.flatMap_append]
  rfl

theorem normalizeCallbacks_closed (u v : Text) :
    normalizeCallbacks ((u ++ ['\x7d']) ++ v) =
      normalizeCallbacks (u ++ ['\x7d']) ++ normalizeCallbacks v := by
  refine normalizeCallbacks_append fun w hw hne handler rest hflat heq ↦ ?_
  obtain ⟨w, rfl, -⟩ := (List.suffix_concat_iff.1 hw).resolve_left hne
  have hlead : '\x7d' ∉ callbackLead := by decide
  have hbody : '\x7d' ∉ callbackLead ++ '\x7b' :: handler := by
    rw [List.mem_append, List.mem_cons, not_or, not_or]
    exact ⟨hlead, by decide, fun hmem ↦ (hflat.2 _ hmem).1 rfl⟩
  have htext : (callback handler).text = (callbackLead ++ '\x7b' :: handler) ++ ['\x7d'] := by
    simp [text_callback]
  rw [htext, List.append_assoc, List.append_assoc] at heq
  rw [htext]
  obtain ⟨more, rfl⟩ : callbackLead ++ '\x7b' :: handler <+: w :=
    Text.prefix_of_prefix_append_cons hbody ⟨['\x7d'] ++ rest, heq.symm⟩
  rw [List.append_assoc] at heq
  cases more with
  | nil => simp
  | cons c more =>
    obtain ⟨rfl, -⟩ := List.cons.inj (List.append_cancel_left heq)
    exact ⟨more ++ ['\x7d'], by simp⟩

theorem normalizeCallbacks_open (hu : ¬ LeavesOpen u) (v : Text) :
    normalizeCallbacks (u ++ (callbackLead ++ '\x7b' :: v)) =
      normalizeCallbacks u ++ normalizeCallbacks (callbackLead ++ '\x7b' :: v) := by
  refine normalizeCallbacks_append fun w hw hne handler rest hflat heq ↦ ?_
  have hlead : '\x7b' ∉ callbackLead := by decide
  rw [text_callback] at heq ⊢
  by_cases hbrace : '\x7b' ∈ w
  · -- What comes before the first brace is the name, so a handler is open behind it.
    obtain ⟨name, inside, rfl, hname⟩ := List.eq_append_cons_of_mem hbrace
    simp only [List.append_assoc, List.cons_append, List.nil_append] at heq
    obtain rfl := Text.eq_of_append_cons hname hlead heq
    have hinside := (List.cons.inj (List.append_cancel_left heq)).2
    obtain ⟨front, rfl⟩ := hw
    obtain ⟨more, hhandler, -⟩ | ⟨more, rfl, hmore⟩ := List.append_eq_append_iff.1 hinside
    · refine absurd ⟨front, inside, rfl, fun c hc ↦ hflat.2 c ?_⟩ hu
      rw [hhandler]
      exact List.mem_append_left more hc
    · cases more with
      | nil => cases hmore
      | cons c more =>
        obtain ⟨rfl, -⟩ := List.cons.inj hmore
        exact ⟨more, by simp⟩
  · have hleft : '\x7b' ∉ w ++ callbackLead := by
      rw [List.mem_append, not_or]
      exact ⟨hbrace, hlead⟩
    rw [← List.append_assoc, List.append_assoc callbackLead] at heq
    exact absurd (List.append_left_eq_self.1 (Text.eq_of_append_cons hleft hlead heq)) hne

theorem count_callback {x : Char} (hx : x ∉ callbackLead) (handler : Text) :
    (callback handler).text.count x = handler.count x + List.count x ['\x7b', '\x7d'] := by
  simp only [text_callback, List.count_append, List.count_eq_zero.2 hx, List.count_cons, List.count_nil]
  omega

theorem balanced_callback (hflat : IsFlat handler) (hopen : '\x7b' ∉ handler) :
    Text.Balanced (callback handler).text := by
  have hlead : callbackLead.filter Text.isBrace = [] := by decide
  have hhandler : handler.filter Text.isBrace = [] := by
    refine List.filter_eq_nil_iff.2 fun c hc ↦ ?_
    have hne : c ≠ '\x7b' := fun heq ↦ hopen (heq ▸ hc)
    simp [Text.isBrace, hne, (hflat.2 c hc).1]
  refine (Text.balanced_iff_of_filter_eq (v := ['\x7b', '\x7d']) ?_).2 rfl
  rw [text_callback, List.filter_append, List.filter_cons, List.filter_append, hlead, hhandler]
  rfl

theorem count_flatten {parts : List Text} {x : Char} {n : Nat}
    (h : ∀ part ∈ parts, part.count x = n) : parts.flatten.count x = parts.length * n := by
  induction parts with
  | nil => simp
  | cons part parts ih =>
    obtain ⟨hpart, hparts⟩ := List.forall_mem_cons.1 h
    rw [List.flatten_cons, List.count_append, hpart, ih hparts, List.length_cons, Nat.add_one_mul,
      Nat.add_comm]

theorem count_normalizeCallbacks {x : Char} {n : Nat}
    (h : ∀ handler, IsFlat handler → (callback handler).text.count x = n) (line : Text) :
    (normalizeCallbacks line).count x + (collapseCallback.parts line).length * n =
      line.count x + (collapseCallback.parts line).length * idleCallback.count x := by
  have hcount := count_replace_add collapseCallback idleCallback line x
  rw [count_flatten fun part hpart ↦ ?_] at hcount
  · exact hcount
  · obtain ⟨handler, rfl, hflat⟩ := exists_of_mem_parts hpart
    exact h handler hflat

theorem count_close_normalizeCallbacks (line : Text) :
    (normalizeCallbacks line).count '\x7d' =
      line.count '\x7d' + (collapseCallback.parts line).length := by
  have hone : ∀ handler, IsFlat handler → (callback handler).text.count '\x7d' = 1 := by
    intro handler hflat
    rw [count_callback (by decide), List.count_eq_zero.2 fun hmem ↦ (hflat.2 _ hmem).1 rfl]
    rfl
  have hcount := count_normalizeCallbacks hone line
  have hidle : idleCallback.count '\x7d' = 2 := by decide
  rw [hidle] at hcount
  omega

theorem count_line_normalizeCallbacks (line : Text) :
    (normalizeCallbacks line).count '\n' = line.count '\n' := by
  have hnone : ∀ handler, IsFlat handler → (callback handler).text.count '\n' = 0 := by
    intro handler hflat
    rw [count_callback (by decide), List.count_eq_zero.2 fun hmem ↦ (hflat.2 _ hmem).2 rfl]
    rfl
  have hcount := count_normalizeCallbacks hnone line
  have hidle : idleCallback.count '\n' = 0 := by decide
  rw [hidle] at hcount
  omega

theorem parts_collapseCallback_eq_nil_iff :
    collapseCallback.parts t = [] ↔ collapseCallback.occursIn t = false :=
  parts_eq_nil_iff not_takes_nil

theorem normalizeCallbacks_eq_self_iff :
    normalizeCallbacks t = t ↔ collapseCallback.occursIn t = false := by
  rw [← parts_collapseCallback_eq_nil_iff]
  constructor
  · intro h
    have hcount := count_close_normalizeCallbacks t
    rw [h] at hcount
    exact List.length_eq_zero_iff.1 (by omega)
  · intro h
    rw [parts_collapseCallback_eq_nil_iff, ← captures_eq_nil_iff not_takes_nil] at h
    exact replace_eq_self h _

theorem occursIn_idleCallback (u v : Text) : collapseCallback.occursIn (u ++ (idleCallback ++ v)) = true := by
  refine occursIn_append_left finds_collapseCallback.isPlain ((occursIn_iff _ _).2 ?_) u
  have hflat : IsFlat "() => \x7b" := ⟨by decide, Text.forall_mem_of_all (by decide)⟩
  exact ⟨[], (callback "() => \x7b").text, '\x7d' :: v, rfl, takes_collapseCallback.2 ⟨_, rfl, hflat⟩⟩

/-- The idle callback is found again, so a callback is never normalized for good. -/
theorem occursIn_normalizeCallbacks (line : Text) :
    collapseCallback.occursIn (normalizeCallbacks line) = collapseCallback.occursIn line := by
  cases h : collapseCallback.occursIn line with
  | false => rw [normalizeCallbacks_eq_self_iff.2 h, h]
  | true =>
    have hparts : collapseCallback.parts line ≠ [] := by
      rw [Ne, parts_collapseCallback_eq_nil_iff, h]
      decide
    obtain ⟨u, v, hidle⟩ : idleCallback <:+: normalizeCallbacks line := infix_replace hparts
    rw [← hidle, List.append_assoc]
    exact occursIn_idleCallback u v

theorem depthAfter_normalizeCallbacks (h : ∀ part ∈ collapseCallback.parts line, Text.Balanced part)
    (depth : Nat) : Text.depthAfter depth (normalizeCallbacks line) = Text.depthAfter depth line := by
  have hidle : Text.Balanced idleCallback := by decide
  obtain ⟨kept, last, hparts, htext, hreplace⟩ := exists_kept collapseCallback idleCallback line
  rw [← hparts] at h
  rw [normalizeCallbacks, hreplace, htext]
  clear hparts htext hreplace
  induction kept generalizing depth with
  | nil => rfl
  | cons p kept ih =>
    obtain ⟨hp, hkept⟩ := List.forall_mem_cons.1 h
    simp only [List.flatMap_cons, List.append_assoc] at ih ⊢
    refine Text.depthAfter_append_congr (fun depth ↦ ?_) p.1
    rw [hidle.depthAfter_append, hp.depthAfter_append]
    exact ih depth hkept

theorem length_le_count_flatten {parts : List Text} {x : Char} (h : ∀ part ∈ parts, x ∈ part) :
    parts.length ≤ parts.flatten.count x := by
  induction parts with
  | nil => exact Nat.zero_le _
  | cons part parts ih =>
    obtain ⟨hpart, hparts⟩ := List.forall_mem_cons.1 h
    have hpos := List.count_pos_iff.2 hpart
    have hrest := ih hparts
    rw [List.flatten_cons, List.count_append, List.length_cons]
    omega

theorem count_eq_one_of_flatten {parts : List Text} {x : Char} (h : ∀ part ∈ parts, x ∈ part)
    (hcount : parts.flatten.count x = parts.length) : ∀ part ∈ parts, part.count x = 1 := by
  induction parts with
  | nil => simp
  | cons part parts ih =>
    obtain ⟨hpart, hparts⟩ := List.forall_mem_cons.1 h
    have hpos := List.count_pos_iff.2 hpart
    have hle := length_le_count_flatten hparts
    rw [List.flatten_cons, List.count_append, List.length_cons] at hcount
    exact List.forall_mem_cons.2 ⟨by omega, ih hparts (by omega)⟩

theorem balanced_normalizeCallbacks_iff (h : Text.Balanced line) :
    Text.Balanced (normalizeCallbacks line) ↔
      ∀ part ∈ collapseCallback.parts line, Text.Balanced part := by
  constructor
  · intro hbalanced
    have hclose := count_close_normalizeCallbacks line
    have hopen := count_replace_add collapseCallback idleCallback line '\x7b'
    have hidle : idleCallback.count '\x7b' = 2 := by decide
    rw [hidle] at hopen
    have hsum : (collapseCallback.parts line).flatten.count '\x7b' =
        (collapseCallback.parts line).length := by
      have hline := h.count_eq
      have hnormal : (collapseCallback.replace (fun _ ↦ idleCallback) line).count '\x7b' =
        (normalizeCallbacks line).count '\x7d' := hbalanced.count_eq
      omega
    have hopened : ∀ part ∈ collapseCallback.parts line, '\x7b' ∈ part := by
      intro part hpart
      obtain ⟨handler, rfl, -⟩ := exists_of_mem_parts hpart
      rw [text_callback]
      simp
    intro part hpart
    have hone := count_eq_one_of_flatten hopened hsum part hpart
    obtain ⟨handler, rfl, hflat⟩ := exists_of_mem_parts hpart
    rw [count_callback (by decide)] at hone
    exact balanced_callback hflat (List.count_eq_zero.1 (Nat.succ.inj hone))
  · intro hparts
    rw [Text.Balanced, depthAfter_normalizeCallbacks hparts]
    exact h

theorem normalizeCallbacks_callback_iff :
    normalizeCallbacks (callback handler).text = idleCallback ↔ IsFlat handler := by
  constructor
  · intro h
    have hne : handler ≠ [] := by
      rintro rfl
      revert h
      decide
    refine ⟨hne, fun c hc ↦ ⟨?_, ?_⟩⟩
    · -- The two closing braces of the idle callback are those of the text, where nothing is found then.
      rintro rfl
      have hhandler : 0 < handler.count '\x7d' := List.count_pos_iff.2 hc
      have hclose := count_close_normalizeCallbacks (callback handler).text
      rw [h, count_callback (by decide)] at hclose
      have htwo : idleCallback.count '\x7d' = 2 ∧ List.count '\x7d' ['\x7b', '\x7d'] = 1 := by decide
      have hparts : collapseCallback.parts (callback handler).text = [] :=
        List.length_eq_zero_iff.1 (by omega)
      have hself := normalizeCallbacks_eq_self_iff.2 (parts_collapseCallback_eq_nil_iff.1 hparts)
      rw [h] at hself
      rw [← hself] at h
      revert h
      decide
    · rintro rfl
      have hline := count_line_normalizeCallbacks (callback handler).text
      rw [h, count_callback (by decide)] at hline
      have hidle : idleCallback.count '\n' = 0 := by decide
      have hhandler : 0 < handler.count '\n' := List.count_pos_iff.2 hc
      omega
  · intro h
    have hfound := normalizeCallbacks_found h []
    rw [List.append_nil] at hfound
    rw [hfound]
    exact List.append_nil idleCallback

/-- Behind a text that leaves no handler open a callback is normalized on its own, and so is what comes
after it. -/
theorem normalizeCallbacks_around (hu : ¬ LeavesOpen u) (handler v : Text) :
    normalizeCallbacks (u ++ ((callback handler).text ++ v)) =
      normalizeCallbacks u ++ (normalizeCallbacks (callback handler).text ++ normalizeCallbacks v) := by
  have hclosed : (callback handler).text = (callbackLead ++ '\x7b' :: handler) ++ ['\x7d'] := by
    simp [text_callback]
  have hopen : (callback handler).text ++ v = callbackLead ++ '\x7b' :: (handler ++ '\x7d' :: v) := by
    simp [text_callback]
  rw [hopen, normalizeCallbacks_open hu, ← hopen, hclosed, normalizeCallbacks_closed]

/-- What stands behind the first closing brace of a handler is left over. -/
theorem normalizeCallbacks_nested (h : IsFlat u) (more : Text) :
    normalizeCallbacks (callback (u ++ '\x7d' :: more)).text =
      idleCallback ++ normalizeCallbacks (more ++ ['\x7d']) := by
  have htext : (callback (u ++ '\x7d' :: more)).text = (callback u).text ++ (more ++ ['\x7d']) := by
    simp [text_callback]
  rw [htext, normalizeCallbacks_found h]

/-- Normalized once more, a line stays as it is only if it has no callback. Its braces stay balanced
exactly if those of all matches are. A callback becomes the idle one exactly if its handler has no
closing brace, and if it has one, all that follows the first is left over. -/
theorem callbacks_normalized_iff (line : Text) :
    (normalizeCallbacks (normalizeCallbacks line) = normalizeCallbacks line ↔
      collapseCallback.occursIn line = false) ∧
    (Text.Balanced line → (Text.Balanced (normalizeCallbacks line) ↔
      ∀ part ∈ collapseCallback.parts line, Text.Balanced part)) ∧
    ∀ u handler v, line = u ++ ((callback handler).text ++ v) → ¬ LeavesOpen u →
      normalizeCallbacks line =
        normalizeCallbacks u ++ (normalizeCallbacks (callback handler).text ++ normalizeCallbacks v) ∧
      (normalizeCallbacks (callback handler).text = idleCallback ↔ IsFlat handler) ∧
      ∀ front more, handler = front ++ '\x7d' :: more → IsFlat front →
        normalizeCallbacks (callback handler).text =
          idleCallback ++ normalizeCallbacks (more ++ ['\x7d']) := by
  refine ⟨?_, balanced_normalizeCallbacks_iff, ?_⟩
  · rw [normalizeCallbacks_eq_self_iff, occursIn_normalizeCallbacks]
  · intro u handler v hline hu
    rw [hline]
    refine ⟨normalizeCallbacks_around hu handler v, normalizeCallbacks_callback_iff, ?_⟩
    intro front more hhandler hfront
    rw [hhandler, normalizeCallbacks_nested hfront]

theorem callbacks_normalized_iff_of_setter :
    Text.Balanced (normalizeCallbacks "<A onCollapsedChange=\x7bset\x7d />") ∧
      normalizeCallbacks (callback "set").text = idleCallback ∧
      normalizeCallbacks (callback "() => \x7bgo()\x7d").text = idleCallback ++ ['\x7d'] := by
  have hnone : ¬ LeavesOpen "<A " := by
    intro h
    obtain ⟨front, inside, heq, -⟩ := h
    have hequals : '=' ∈ ("<A " : Text) := by
      rw [heq]
      exact List.mem_append_right _ (List.mem_append_left _ (by decide))
    exact absurd hequals (by decide)
  have hset := callbacks_normalized_iff "<A onCollapsedChange=\x7bset\x7d />"
  have hgo := callbacks_normalized_iff "<A onCollapsedChange=\x7b() => \x7bgo()\x7d\x7d />"
  have hrest : normalizeCallbacks ([] ++ ['\x7d']) = ['\x7d'] := by decide
  refine ⟨(hset.2.1 (by decide)).2 (by decide), ?_, ?_⟩
  · exact (hset.2.2 "<A " "set" " />" rfl hnone).2.1.2 ⟨by decide, Text.forall_mem_of_all (by decide)⟩
  · have hleft := (hgo.2.2 "<A " "() => \x7bgo()\x7d" " />" rfl hnone).2.2 "() => \x7bgo()" [] rfl
      ⟨by decide, Text.forall_mem_of_all (by decide)⟩
    rwa [hrest] at hleft

/-- The idle callback is no exception: its own first closing brace ends the match. -/
theorem idle_callback_spoilt :
    normalizeCallbacks "onCollapsedChange=\x7b() => \x7b\x7d\x7d" =
        "onCollapsedChange=\x7b() => \x7b\x7d\x7d\x7d" ∧
      Text.Balanced "onCollapsedChange=\x7b() => \x7b\x7d\x7d" ∧
      ¬ Text.Balanced "onCollapsedChange=\x7b() => \x7b\x7d\x7d\x7d" := by
  decide

end CanvasLift.Canvas
