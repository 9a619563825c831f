import CanvasLift.Proofs.Canvas.Arm
import CanvasLift.Proofs.Canvas.Guard
import CanvasLift.Proofs.Text.Trim

namespace CanvasLift.Canvas

open Pattern

/-- An arm to be written down. The line on which it opens starts with a brace for the first arm of a
chain and with the hand-over from the arm before for all others. -/
structure Arm where
  id : Text
  payload : List Text
  style : GuardStyle
  indent : Spacing
  beforeColon : Spacing
  beforeGuard : Spacing
  atEnd : Spacing
  id_ne_nil : id ≠ []
  id_unquoted : ∀ c ∈ id, c ≠ '"' ∧ c ≠ '\''
  payload_open : ∀ line ∈ payload, handOver.opens line = false
  payload_unguarded : ∀ line ∈ payload, guard.occursIn line = false

namespace Spacing

theorem isWord_getLast? (front : Text) {x : Char} (hx : Text.isWord x = false) (s : Spacing) :
    (front ++ x :: s.1).getLast?.any Text.isWord = false := by
  obtain ⟨t, ht⟩ := s
  obtain rfl | ⟨t, y, rfl⟩ := List.eq_nil_or_concat t
  · simp [hx]
  · have hsplit : front ++ x :: t.concat y = (front ++ x :: t) ++ [y] := by simp
    rw [hsplit, List.getLast?_concat, Option.any_some]
    exact isWord_of_isBlank (ht y (by simp))

end Spacing

namespace Arm

def guardText (a : Arm) : Text := a.beforeGuard.1 ++ a.style.write a.id a.atEnd.1

def firstLine (a : Arm) : Text := a.indent.1 ++ '{' :: a.guardText

def nextLine (a : Arm) : Text := a.indent.1 ++ ')' :: (a.beforeColon.1 ++ ':' :: a.guardText)

theorem capture?_firstLine (a : Arm) : guard.capture? a.firstLine = some a.id := by
  have hfront : 'e' ∉ a.indent.1 ++ '{' :: a.beforeGuard.1 := by
    have hindent := Text.not_mem_of_blank a.indent.2 (c := 'e') (by decide)
    have hgap := Text.not_mem_of_blank a.beforeGuard.2 (c := 'e') (by decide)
    simp [hindent, hgap]
  have hlast := Spacing.isWord_getLast? a.indent.1 (x := '{') (by decide) a.beforeGuard
  have h := capture?_guard a.style a.id_ne_nil a.id_unquoted hfront hlast a.atEnd.1
  rwa [List.append_assoc] at h

theorem capture?_nextLine (a : Arm) : guard.capture? a.nextLine = some a.id := by
  have hfront : 'e' ∉ a.indent.1 ++ ')' :: (a.beforeColon.1 ++ ':' :: a.beforeGuard.1) := by
    have hindent := Text.not_mem_of_blank a.indent.2 (c := 'e') (by decide)
    have hgap := Text.not_mem_of_blank a.beforeColon.2 (c := 'e') (by decide)
    have hgap' := Text.not_mem_of_blank a.beforeGuard.2 (c := 'e') (by decide)
    simp [hindent, hgap, hgap']
  have hlast := Spacing.isWord_getLast? (a.indent.1 ++ ')' :: a.beforeColon.1) (x := ':')
    (by decide) a.beforeGuard
  rw [List.append_assoc, List.cons_append] at hlast
  have h := capture?_guard a.style a.id_ne_nil a.id_unquoted hfront hlast a.atEnd.1
  rwa [List.append_assoc, List.cons_append, List.append_assoc] at h

theorem opens_nextLine (a : Arm) : handOver.opens a.nextLine = true :=
  opens_handOver_guard a.indent a.beforeColon a.beforeGuard a.style a.id a.atEnd.1

theorem capture?_payload (a : Arm) {line : Text} (h : line ∈ a.payload) :
    guard.capture? line = none :=
  capture?_eq_none_iff.2 (a.payload_unguarded line h)

end Arm

/-- A chain to be written down, between lines that belong to no arm. -/
structure Chain where
  above : List Text
  first : Arm
  others : List Arm
  indent : Spacing
  beforeColon : Spacing
  afterColon : Spacing
  atEnd : Spacing
  below : List Text
  above_unguarded : ∀ line ∈ above, guard.occursIn line = false
  nodup : ((first :: others).map Arm.id).Nodup

namespace Chain

variable (c : Chain)

def arms : List Arm := c.first :: c.others

def lastLine : Text :=
  c.indent.1 ++ ')' :: (c.beforeColon.1 ++ ':' :: (c.afterColon.1 ++ '(' :: c.atEnd.1))

/-- The lines from the end of a payload on, where the arms `next` are still to come. -/
def rest (next : List Arm) : List Text :=
  next.flatMap (fun a ↦ a.nextLine :: a.payload) ++ c.lastLine :: c.below

def lines : List Text := c.above ++ c.first.firstLine :: (c.first.payload ++ c.rest c.others)

/-- The line that closes a payload: the next guard's, or the one that hands over to the catch-all. -/
def closing : List Arm → Text
  | [] => c.lastLine
  | a :: _ => a.nextLine

theorem exists_rest_eq (next : List Arm) :
    handOver.opens (c.closing next) = true ∧ ∃ more, c.rest next = c.closing next :: more := by
  cases next with
  | nil => exact ⟨opens_handOver_parenthesis _ _ _ _, c.below, rfl⟩
  | cons a next => exact ⟨a.opens_nextLine, _, rfl⟩

theorem capture?_lastLine : guard.capture? c.lastLine = none := by
  apply capture?_guard_of_not_mem
  have hblank (s : Spacing) := Text.not_mem_of_blank s.2 (c := 'e') (by decide)
  simp [lastLine, hblank]

theorem capture?_above {line : Text} (h : line ∈ c.above) : guard.capture? line = none :=
  capture?_eq_none_iff.2 (c.above_unguarded line h)

theorem capture?_ne_of_mem_others {arms : List Arm} {id : Text} (hid : id ∉ arms.map Arm.id)
    {line : Text} (h : line ∈ arms.flatMap fun a ↦ a.nextLine :: a.payload) :
    guard.capture? line ≠ some id := by
  obtain ⟨a, ha, hline⟩ := List.mem_flatMap.1 h
  obtain rfl | hline := List.mem_cons.1 hline
  · rw [a.capture?_nextLine]
    intro heq
    exact hid (Option.some.inj heq ▸ List.mem_map_of_mem ha)
  · simp [a.capture?_payload hline]

theorem capture?_ne_of_mem_start {arms : List Arm} {id : Text}
    (hid : id ∉ (c.first :: arms).map Arm.id) {line : Text}
    (h : line ∈ c.above ++ c.first.firstLine :: (c.first.payload ++
      arms.flatMap fun a ↦ a.nextLine :: a.payload)) :
    guard.capture? line ≠ some id := by
  rw [List.map_cons, List.mem_cons, not_or] at hid
  obtain h | h := List.mem_append.1 h
  · simp [c.capture?_above h]
  obtain rfl | h := List.mem_cons.1 h
  · rw [c.first.capture?_firstLine]
    exact fun heq ↦ hid.1 (Option.some.inj heq).symm
  obtain h | h := List.mem_append.1 h
  · simp [c.first.capture?_payload h]
  · exact capture?_ne_of_mem_others hid.2 h

theorem exists_parts {front back : List Arm} {a : Arm} (h : c.arms = front ++ a :: back) :
    ∃ p : Span.Parts a.id, c.lines = p.lines ∧ p.payload = a.payload ∧
      p.closing = c.closing back := by
  obtain ⟨hcloses, more, hrest⟩ := c.exists_rest_eq back
  have hnodup : ((front ++ a :: back).map Arm.id).Nodup := h ▸ c.nodup
  rw [List.map_append, List.map_cons, List.nodup_append] at hnodup
  -- Ids do not repeat, so no line of an earlier arm is a guard for this one.
  have hid : a.id ∉ front.map Arm.id := fun hmem ↦
    hnodup.2.2 _ hmem _ List.mem_cons_self rfl
  cases front with
  | nil =>
    obtain ⟨rfl, rfl⟩ := List.cons.inj h
    refine ⟨⟨c.above, c.first.firstLine, c.first.payload, c.closing c.others, more,
      fun line hline ↦ ?_, c.first.capture?_firstLine, c.first.payload_open, hcloses⟩, ?_, rfl, rfl⟩
    · simp [c.capture?_above hline]
    · rw [lines, hrest]
      rfl
  | cons b front =>
    obtain ⟨rfl, hothers⟩ := List.cons.inj h
    refine ⟨⟨_, a.nextLine, a.payload, c.closing back, more,
      fun line hline ↦ c.capture?_ne_of_mem_start hid hline, a.capture?_nextLine, a.payload_open,
      hcloses⟩, ?_, rfl, rfl⟩
    rw [lines, hothers, Span.Parts.lines, ← hrest]
    simp [rest]

/-- The payload of every arm is read back, up to the line that closes it; for a type without an arm
nothing is found. -/
theorem locate?_chain_lines :
    (∀ front a back, c.arms = front ++ a :: back → ∃ s, Span.locate? c.lines a.id = some s ∧
      s.start < s.stop ∧ s.stop < c.lines.length ∧ s.payload c.lines = a.payload ∧
      c.lines[s.stop]? = some (c.closing back)) ∧
    ((∀ line ∈ c.below, guard.occursIn line = false) →
      ∀ id, id ∉ c.arms.map Arm.id → Span.locate? c.lines id = none) := by
  constructor
  · intro front a back h
    obtain ⟨p, hlines, hpayload, hclosing⟩ := c.exists_parts h
    rw [hlines, ← hpayload, ← hclosing]
    exact ⟨p.span, p.locate?_lines, p.start_lt_stop, p.stop_lt_length, p.payload_span,
      p.getElem?_stop⟩
  · intro hbelow id hid
    refine Span.locate?_eq_none fun line hline ↦ ?_
    have hlines : c.lines = (c.above ++ c.first.firstLine :: (c.first.payload ++
        c.others.flatMap fun a ↦ a.nextLine :: a.payload)) ++ c.lastLine :: c.below := by
      simp [lines, rest]
    rw [hlines] at hline
    obtain h | h := List.mem_append.1 hline
    · exact c.capture?_ne_of_mem_start hid h
    obtain rfl | h := List.mem_cons.1 h
    · simp [c.capture?_lastLine]
    · simp [capture?_eq_none_iff.2 (hbelow line h)]

def noSpace : Spacing := ⟨[], fun _ h ↦ nomatch h⟩

def oneSpace : Spacing :=
  ⟨[' '], fun c h ↦ by
    obtain rfl := List.mem_singleton.1 h
    decide⟩

def plainArm (id payload : Text) (hne : id ≠ []) (hid : ∀ c ∈ id, c ≠ '"' ∧ c ≠ '\'')
    (hopen : handOver.opens payload = false) (hguard : guard.occursIn payload = false) : Arm where
  id
  payload := [payload]
  style := ⟨oneSpace, oneSpace, ⟨'"', .inl rfl⟩, ⟨'"', .inl rfl⟩, oneSpace, oneSpace⟩
  indent := oneSpace
  beforeColon := oneSpace
  beforeGuard := oneSpace
  atEnd := noSpace
  id_ne_nil := hne
  id_unquoted := hid
  payload_open := by simpa using hopen
  payload_unguarded := by simpa using hguard

/-- A chain in which one id starts with the other, and a payload mentions a type. -/
def cards : Chain where
  above := ["return ("]
  first := plainArm "card-2" "<b>\x7bel.type\x7d</b>" (by decide) (by simp) (by decide) (by decide)
  others := [plainArm "card" "<i/>" (by decide) (by simp) (by decide) (by decide)]
  indent := noSpace
  beforeColon := noSpace
  afterColon := oneSpace
  atEnd := noSpace
  below := ["null)\x7d"]
  above_unguarded := by decide
  nodup := by decide

theorem locate?_chain_lines_cards :
    (∃ s, Span.locate? cards.lines ("card" : Text) = some s ∧ s.start < s.stop ∧
      s.stop < cards.lines.length ∧ s.payload cards.lines = [("<i/>" : Text)] ∧
      cards.lines[s.stop]? = some "): (") ∧
    (∀ line ∈ cards.below, guard.occursIn line = false) ∧
    ("car" : Text) ∉ cards.arms.map Arm.id ∧
    Span.locate? cards.lines ("car" : Text) = none := by
  have hbelow : ∀ line ∈ cards.below, guard.occursIn line = false := by decide
  have hid : ("car" : Text) ∉ cards.arms.map Arm.id := by decide
  obtain ⟨hfound, hnone⟩ := cards.locate?_chain_lines
  exact ⟨hfound [cards.first] _ [] rfl, hbelow, hid, hnone hbelow _ hid⟩

end Chain

end CanvasLift.Canvas
