import CanvasLift.Canvas.Arm
import CanvasLift.Proofs.Pattern.Capture
import CanvasLift.Proofs.Text.Cuts
import CanvasLift.Proofs.Text.Trim

namespace CanvasLift.Canvas

open Pattern

abbrev Spacing := { t : Text // ∀ c ∈ t, Text.isBlank c = true }

abbrev Quote := { c : Char // c = '"' ∨ c = '\'' }

structure GuardStyle where
  beforeEquals : Spacing
  afterEquals : Spacing
  opening : Quote
  closing : Quote
  beforeMark : Spacing
  afterMark : Spacing

def typeWord : Text := "el.type"

def GuardStyle.write (g : GuardStyle) (id rest : Text) : Text :=
  typeWord ++ (g.beforeEquals.1 ++ '=' :: '=' :: '=' :: (g.afterEquals.1 ++ g.opening.1 :: (id ++
    g.closing.1 :: (g.beforeMark.1 ++ '?' :: (g.afterMark.1 ++ '(' :: rest)))))

def guardFront : List Pattern :=
  [wordEdge, literal "el.type", many Text.isBlank, literal "===", many Text.isBlank, quoteMark]

def guardBack : List Pattern :=
  [quoteMark, many Text.isBlank, literal "?", many Text.isBlank, literal "("]

theorem guard_eq_chain : guard =
    chain (guardFront ++ capture (run fun c ↦ c ≠ '"' && c ≠ '\'') :: guardBack) := rfl

def blankNumbers : List Nat :=
  Text.blankRanges.flatMap fun (low, high) ↦ List.range' low (high + 1 - low)

theorem isWord_of_isBlank {c : Char} (h : Text.isBlank c = true) : Text.isWord c = false := by
  have hall : ∀ n ∈ blankNumbers, Text.isWord (Char.ofNat n) = false := by decide +kernel
  obtain ⟨⟨low, high⟩, hrange, hc⟩ := List.any_eq_true.1 h
  simp only [Bool.and_eq_true, decide_eq_true_eq] at hc
  have hn : c.toNat ∈ blankNumbers := by
    refine List.mem_flatMap.2 ⟨_, hrange, List.mem_range'_1.2 ⟨hc.1, ?_⟩⟩
    omega
  rw [← Char.ofNat_toNat c]
  exact hall _ hn

theorem isBlank_quote (q : Quote) : Text.isBlank q.1 = false := by
  obtain ⟨c, rfl | rfl⟩ := q
  · decide
  · decide

theorem quote_iff {c : Char} : (c ≠ '"' && c ≠ '\'') = false ↔ c = '"' ∨ c = '\'' := by
  simp only [Bool.and_eq_false_iff, ne_eq, decide_not, Bool.not_eq_false', decide_eq_true_eq]

theorem takes_quoteMark {last : Option Char} {taken rest : Text} :
    quoteMark.Takes last taken rest ↔ ∃ q : Quote, taken = [q.1] := by
  constructor
  · rintro ⟨x, rfl, hx⟩
    simp only [Bool.or_eq_true, decide_eq_true_eq] at hx
    exact ⟨⟨x, hx⟩, rfl⟩
  · rintro ⟨⟨x, hx⟩, rfl⟩
    exact ⟨x, rfl, by simpa using hx⟩

theorem exists_takes_guard (g : GuardStyle) {id : Text} (hid : id ≠ [])
    (hquote : ∀ c ∈ id, c ≠ '"' ∧ c ≠ '\'') {last : Option Char}
    (hlast : last.any Text.isWord = false) (rest : Text) :
    ∃ taken, g.write id rest = taken ++ rest ∧ guard.Takes last taken rest := by
  have hid' : ∀ c ∈ id, (c ≠ '"' && c ≠ '\'') = true := by simpa using hquote
  have hedge : (last.any Text.isWord != (some 'e').any Text.isWord) = true := by
    rw [hlast]
    decide
  refine ⟨typeWord ++ (g.beforeEquals.1 ++ (['=', '=', '='] ++ (g.afterEquals.1 ++
    ([g.opening.1] ++ (id ++ ([g.closing.1] ++ (g.beforeMark.1 ++ (['?'] ++ (g.afterMark.1 ++
      ['(']))))))))), by simp [GuardStyle.write], ?_⟩
  refine takes_chain_skip ⟨rfl, hedge⟩ ?_
  refine takes_chain_append (takes_literal.2 rfl) ?_
  refine takes_chain_append g.beforeEquals.2 ?_
  refine takes_chain_append (takes_literal.2 rfl) ?_
  refine takes_chain_append g.afterEquals.2 ?_
  refine takes_chain_append (takes_quoteMark.2 ⟨g.opening, rfl⟩) ?_
  refine takes_chain_append (takes_run.2 ⟨hid, hid'⟩) ?_
  refine takes_chain_append (takes_quoteMark.2 ⟨g.closing, rfl⟩) ?_
  refine takes_chain_append g.beforeMark.2 ?_
  refine takes_chain_append (takes_literal.2 rfl) ?_
  refine takes_chain_append g.afterMark.2 ?_
  exact takes_chain_singleton (takes_literal.2 rfl)

theorem head?_of_takes_guard (last : Option Char) (taken rest : Text)
    (h : guard.Takes last taken rest) : taken.head? = some 'e' := by
  obtain ⟨u, v, rfl, ⟨rfl, -⟩, h⟩ := takes_chain_cons.1 h
  obtain ⟨u, w, rfl, hu, -⟩ := takes_chain_cons.1 h
  rw [takes_literal.1 hu]
  rfl

theorem takes_guardFront {last : Option Char} {taken rest : Text}
    (h : (chain guardFront).Takes last taken rest) :
    ∃ (gap gap' : Spacing) (q : Quote),
      taken = typeWord ++ (gap.1 ++ '=' :: '=' :: '=' :: (gap'.1 ++ [q.1])) := by
  obtain ⟨u, v, rfl, ⟨rfl, -⟩, h⟩ := takes_chain_cons.1 h
  obtain ⟨u, v, rfl, hu, h⟩ := takes_chain_cons.1 h
  obtain ⟨gap, v, rfl, hgap, h⟩ := takes_chain_cons.1 h
  obtain ⟨x, v, rfl, hx, h⟩ := takes_chain_cons.1 h
  obtain ⟨gap', v, rfl, hgap', h⟩ := takes_chain_cons.1 h
  obtain ⟨y, v, rfl, hy, hv⟩ := takes_chain_cons.1 h
  obtain rfl : v = [] := hv
  obtain ⟨q, rfl⟩ := takes_quoteMark.1 hy
  obtain rfl : u = typeWord := takes_literal.1 hu
  obtain rfl : x = ['=', '=', '='] := takes_literal.1 hx
  exact ⟨⟨gap, hgap⟩, ⟨gap', hgap'⟩, q, by simp⟩

theorem takes_guardBack {last : Option Char} {taken rest : Text}
    (h : (chain guardBack).Takes last taken rest) :
    ∃ (q : Quote) (gap gap' : Spacing), taken = q.1 :: (gap.1 ++ '?' :: (gap'.1 ++ ['('])) := by
  obtain ⟨x, v, rfl, hx, h⟩ := takes_chain_cons.1 h
  obtain ⟨gap, v, rfl, hgap, h⟩ := takes_chain_cons.1 h
  obtain ⟨y, v, rfl, hy, h⟩ := takes_chain_cons.1 h
  obtain ⟨gap', v, rfl, hgap', h⟩ := takes_chain_cons.1 h
  obtain ⟨z, v, rfl, hz, hv⟩ := takes_chain_cons.1 h
  obtain rfl : v = [] := hv
  obtain ⟨q, rfl⟩ := takes_quoteMark.1 hx
  obtain rfl : y = ['?'] := takes_literal.1 hy
  obtain rfl : z = ['('] := takes_literal.1 hz
  exact ⟨q, ⟨gap, hgap⟩, ⟨gap', hgap'⟩, by simp⟩

theorem isWord_of_takes_guard {last : Option Char} {taken rest : Text}
    (h : guard.Takes last taken rest) : last.any Text.isWord = false := by
  have hhead := head?_of_takes_guard _ _ _ h
  obtain ⟨_, v, rfl, ⟨rfl, hedge⟩, -⟩ := takes_chain_cons.1 h
  have hnext : (v ++ rest).head? = some 'e' := by
    rw [List.head?_append, show v.head? = some 'e' from hhead]
    rfl
  have hword : (some 'e').any Text.isWord = true := by decide
  dsimp only at hedge
  rw [hnext, hword] at hedge
  simpa using hedge

theorem captured_of_mem_ends_guard (g : GuardStyle) {id : Text}
    (hquote : ∀ c ∈ id, c ≠ '"' ∧ c ≠ '\'') {last : Option Char} {rest : Text} {d : Cursor}
    (h : d ∈ guard.ends (.between last (g.write id rest))) : d.captured = id := by
  rw [guard_eq_chain] at h
  obtain ⟨u, w, hafter, hfront, hcaptured, hback⟩ := takes_captured rfl h
  obtain ⟨gap, gap', q, rfl⟩ := takes_guardFront hfront
  obtain ⟨z, w, rfl, hz, -⟩ := takes_chain_cons.1 hback
  obtain ⟨q', rfl⟩ := takes_quoteMark.1 hz
  obtain ⟨-, hall⟩ := takes_run.1 hcaptured
  have htext : g.write id rest = _ := hafter
  simp only [GuardStyle.write, List.append_assoc, List.cons_append, List.nil_append] at htext
  obtain ⟨-, htext⟩ := Text.append_cons_inj g.beforeEquals.2 gap.2 (by decide) (by decide)
    (List.append_cancel_left htext)
  simp only [List.cons.injEq, true_and] at htext
  obtain ⟨-, htext⟩ := Text.append_cons_inj g.afterEquals.2 gap'.2 (isBlank_quote _)
    (isBlank_quote _) htext
  have hid : ∀ c ∈ id, (c ≠ '"' && c ≠ '\'') = true := by simpa using hquote
  obtain ⟨hsame, -⟩ := Text.append_cons_inj hid hall (quote_iff.2 g.closing.2) (quote_iff.2 q'.2)
    (List.cons.inj htext).2
  exact hsame.symm

theorem captureAfter?_write (g : GuardStyle) {id : Text} (hid : id ≠ [])
    (hquote : ∀ c ∈ id, c ≠ '"' ∧ c ≠ '\'') {last : Option Char}
    (hlast : last.any Text.isWord = false) (rest : Text) :
    guard.captureAfter? last (g.write id rest) = some id := by
  obtain ⟨taken, hwrite, htakes⟩ := exists_takes_guard g hid hquote hlast rest
  refine captureAfter?_of_takes ⟨taken, rest, hwrite, htakes⟩ fun d hd ↦ ?_
  exact captured_of_mem_ends_guard g hquote hd

theorem capture?_guard (g : GuardStyle) {id : Text} (hid : id ≠ [])
    (hquote : ∀ c ∈ id, c ≠ '"' ∧ c ≠ '\'') {front : Text} (hfront : 'e' ∉ front)
    (hlast : front.getLast?.any Text.isWord = false) (rest : Text) :
    guard.capture? (front ++ g.write id rest) = some id := by
  rw [capture?, captureAfter?_append head?_of_takes_guard hfront, lastOver_none]
  exact captureAfter?_write g hid hquote hlast rest

/-- A guard is matched exactly where one is written that no word character stands before. -/
theorem takes_guard_iff {last : Option Char} {t : Text} :
    (∃ taken rest, t = taken ++ rest ∧ guard.Takes last taken rest) ↔
      last.any Text.isWord = false ∧ ∃ (g : GuardStyle) (id rest : Text),
        id ≠ [] ∧ (∀ c ∈ id, c ≠ '"' ∧ c ≠ '\'') ∧ t = g.write id rest := by
  constructor
  · intro h
    obtain ⟨_, rest, rfl, htakes⟩ := h
    refine ⟨isWord_of_takes_guard htakes, ?_⟩
    rw [guard_eq_chain] at htakes
    obtain ⟨_, _, rfl, hfront, htakes⟩ := takes_chain_split.1 htakes
    obtain ⟨id, _, rfl, hcaptured, hback⟩ := takes_chain_cons.1 htakes
    obtain ⟨gap₁, gap₂, q₁, rfl⟩ := takes_guardFront hfront
    obtain ⟨hid, hquote⟩ := takes_run.1 hcaptured
    obtain ⟨q₂, gap₃, gap₄, rfl⟩ := takes_guardBack hback
    refine ⟨⟨gap₁, gap₂, q₁, q₂, gap₃, gap₄⟩, id, rest, hid, by simpa using hquote, ?_⟩
    simp [GuardStyle.write]
  · intro h
    obtain ⟨hlast, g, id, rest, hid, hquote, rfl⟩ := h
    obtain ⟨taken, heq, htakes⟩ := exists_takes_guard g hid hquote hlast rest
    exact ⟨taken, rest, heq, htakes⟩

/-- Of the character before a text it only matters whether it is a word character. -/
theorem captureAfter?_guard_congr {last last' : Option Char}
    (h : last.any Text.isWord = last'.any Text.isWord) (t : Text) :
    guard.captureAfter? last t = guard.captureAfter? last' t := by
  by_cases hhere : ∃ taken rest, t = taken ++ rest ∧ guard.Takes last taken rest
  · obtain ⟨hlast, g, id, rest, hid, hquote, rfl⟩ := takes_guard_iff.1 hhere
    rw [captureAfter?_write g hid hquote hlast, captureAfter?_write g hid hquote (h.symm.trans hlast)]
  · have hthere : ¬ ∃ taken rest, t = taken ++ rest ∧ guard.Takes last' taken rest := by
      rwa [takes_guard_iff, ← h, ← takes_guard_iff]
    rw [← isSome_end?_between_iff, Option.not_isSome_iff_eq_none] at hhere hthere
    cases t with
    | nil => rw [captureAfter?, captureAfter?, hhere, hthere]
    | cons x t => rw [captureAfter?, captureAfter?, hhere, hthere]

theorem capture?_guard_append {u : Text} (hu : ∀ c ∈ u, Text.isBlank c = true) (t : Text) :
    guard.capture? (u ++ t) = guard.capture? t := by
  have hstart : 'e' ∉ u := Text.not_mem_of_blank hu (by decide)
  have hlast : u.getLast?.any Text.isWord = false := by
    cases hc : u.getLast? with
    | none => rfl
    | some c => exact isWord_of_isBlank (hu c (List.mem_of_getLast? hc))
  rw [capture?, captureAfter?_append head?_of_takes_guard hstart, lastOver_none]
  exact captureAfter?_guard_congr hlast t

theorem capture?_guard_of_not_mem {line : Text} (h : 'e' ∉ line) : guard.capture? line = none := by
  rw [capture?, ← List.append_nil line, captureAfter?_append head?_of_takes_guard h]
  rw [captureAfter?, Option.map_eq_none_iff, ← Option.not_isSome_iff_eq_none, isSome_end?_iff]
  rintro ⟨taken, rest, heq, htakes⟩
  obtain ⟨rfl, -⟩ := List.nil_eq_append_iff.1 heq
  cases head?_of_takes_guard _ _ _ htakes

def alternative : Pattern :=
  alt (chain [literal "el.type", many Text.isBlank, literal "==="]) (literal "(")

theorem opens_handOver {indent gap gap' : Spacing} {next taken rest : Text}
    (hnext : next = taken ++ rest) (h : ∀ last, alternative.Takes last taken rest) :
    handOver.opens (indent.1 ++ ')' :: (gap.1 ++ ':' :: (gap'.1 ++ next))) = true := by
  rw [opens, isSome_end?_iff, hnext]
  refine ⟨indent.1 ++ ([')'] ++ (gap.1 ++ ([':'] ++ (gap'.1 ++ taken)))), rest, ?_, ?_⟩
  · simp [Cursor.start, Cursor.between]
  refine takes_chain_append indent.2 ?_
  refine takes_chain_append (takes_literal.2 rfl) ?_
  refine takes_chain_append gap.2 ?_
  refine takes_chain_append (takes_literal.2 rfl) ?_
  refine takes_chain_append gap'.2 ?_
  exact takes_chain_singleton (h _)

theorem opens_handOver_guard (indent gap gap' : Spacing) (g : GuardStyle) (id rest : Text) :
    handOver.opens (indent.1 ++ ')' :: (gap.1 ++ ':' :: (gap'.1 ++ g.write id rest))) = true := by
  have htakes (last : Option Char) (more : Text) :
      alternative.Takes last (typeWord ++ (g.beforeEquals.1 ++ ['=', '=', '='])) more := by
    refine .inl (takes_chain_append (takes_literal.2 rfl) ?_)
    exact takes_chain_append g.beforeEquals.2 (takes_chain_singleton (takes_literal.2 rfl))
  have hwrite : g.write id rest = typeWord ++ (g.beforeEquals.1 ++ ['=', '=', '=']) ++
      (g.afterEquals.1 ++ g.opening.1 :: (id ++ g.closing.1 :: (g.beforeMark.1 ++ '?' ::
        (g.afterMark.1 ++ '(' :: rest)))) := by simp [GuardStyle.write]
  exact opens_handOver hwrite fun last ↦ htakes last _

theorem opens_handOver_parenthesis (indent gap gap' : Spacing) (rest : Text) :
    handOver.opens (indent.1 ++ ')' :: (gap.1 ++ ':' :: (gap'.1 ++ '(' :: rest))) = true := by
  have hnext : '(' :: rest = ['('] ++ rest := rfl
  exact opens_handOver hnext fun _ ↦ .inr (takes_literal.2 rfl)

/-- What stands behind the indentation of a line that hands over. -/
def handOverBehind : List Pattern :=
  [literal ")", many Text.isBlank, literal ":", many Text.isBlank, alternative]

theorem head?_of_takes_handOverBehind {last : Option Char} {taken rest : Text}
    (h : (chain handOverBehind).Takes last taken rest) : taken.head? = some ')' := by
  obtain ⟨u, v, rfl, hu, -⟩ := takes_chain_cons.1 h
  rw [takes_literal.1 hu]
  rfl

theorem opens_handOver_iff {t : Text} :
    handOver.opens t = true ↔ ∃ indent taken rest, t = indent ++ (taken ++ rest) ∧
      (∀ c ∈ indent, Text.isBlank c = true) ∧ (chain handOverBehind).Takes none taken rest := by
  have hplain : (chain handOverBehind).isPlain = true := by decide
  rw [opens, Cursor.start, isSome_end?_between_iff]
  constructor
  · intro h
    obtain ⟨_, rest, rfl, htakes⟩ := h
    obtain ⟨indent, taken, rfl, hindent, htakes⟩ := takes_chain_cons.1 htakes
    exact ⟨indent, taken, rest, List.append_assoc _ _ _, hindent, htakes.of_isPlain hplain⟩
  · intro h
    obtain ⟨indent, taken, rest, rfl, hindent, htakes⟩ := h
    exact ⟨indent ++ taken, rest, (List.append_assoc _ _ _).symm,
      takes_chain_append hindent (htakes.of_isPlain hplain)⟩

theorem opens_handOver_append {u : Text} (hu : ∀ c ∈ u, Text.isBlank c = true) (t : Text) :
    handOver.opens (u ++ t) = handOver.opens t := by
  rw [Bool.eq_iff_iff, opens_handOver_iff, opens_handOver_iff]
  constructor
  · intro h
    obtain ⟨indent, taken, rest, heq, hindent, htakes⟩ := h
    have hstop : ∃ c ∈ (taken ++ rest).head?, Text.isBlank c = false :=
      ⟨')', by rw [List.head?_append, head?_of_takes_handOverBehind htakes]; rfl, by decide⟩
    obtain ⟨more, rfl, rfl⟩ := Text.exists_of_run hu hstop heq
    exact ⟨more, taken, rest, rfl, fun c hc ↦ hindent c (List.mem_append_right _ hc), htakes⟩
  · intro h
    obtain ⟨indent, taken, rest, rfl, hindent, htakes⟩ := h
    exact ⟨u ++ indent, taken, rest, by simp, List.forall_mem_append.2 ⟨hu, hindent⟩, htakes⟩

end CanvasLift.Canvas
