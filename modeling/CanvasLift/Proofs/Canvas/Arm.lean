import CanvasLift.Canvas.Arm

namespace CanvasLift.Canvas

open Pattern

theorem findIdx?_eq_some_iff_append {α : Type} {p : α → Bool} {xs : List α} {i : Nat} :
    xs.findIdx? p = some i ↔
      ∃ front x back, xs = front ++ x :: back ∧ (∀ y ∈ front, p y = false) ∧ p x = true ∧
        i = front.length := by
  constructor
  · intro h
    obtain ⟨hi, hx, hfront⟩ := List.findIdx?_eq_some_iff_getElem.1 h
    refine ⟨xs.take i, xs[i], xs.drop (i + 1), ?_, fun y hy ↦ ?_, hx, ?_⟩
    · rw [← List.drop_eq_getElem_cons hi, List.take_append_drop]
    · obtain ⟨j, hj, rfl⟩ := List.mem_take_iff_getElem.1 hy
      exact Bool.eq_false_iff.2 (hfront j (by omega))
    · rw [List.length_take, Nat.min_eq_left (Nat.le_of_lt hi)]
  · rintro ⟨front, x, back, rfl, hfront, hx, rfl⟩
    rw [List.findIdx?_append, List.findIdx?_eq_none_iff.2 hfront, List.findIdx?_cons, if_pos hx]
    simp

theorem drop_length_succ_append {α : Type} (front : List α) (x : α) (back : List α) :
    (front ++ x :: back).drop (front.length + 1) = back := by
  have hlen : front.length + 1 = (front ++ [x]).length := by simp
  rw [List.append_cons, hlen, List.drop_left]

namespace Span

/-- The lines of a document from the one on which an arm opens to the one that closes it. -/
def slice (s : Span) (lines : List Text) : List Text :=
  (lines.drop s.start).take (s.stop + 1 - s.start)

structure Parts (id : Text) where
  above : List Text
  opening : Text
  payload : List Text
  closing : Text
  below : List Text
  above_other : ∀ line ∈ above, guard.capture? line ≠ some id
  opens : guard.capture? opening = some id
  payload_open : ∀ line ∈ payload, handOver.opens line = false
  closes : handOver.opens closing = true

variable {id : Text}

namespace Parts

def lines (a : Parts id) : List Text := a.above ++ a.opening :: (a.payload ++ a.closing :: a.below)

def span (a : Parts id) : Span := ⟨a.above.length, a.above.length + 1 + a.payload.length⟩

theorem payload_span (a : Parts id) : a.span.payload a.lines = a.payload := by
  rw [Span.payload, span, lines, drop_length_succ_append]
  simp

theorem slice_span (a : Parts id) :
    a.span.slice a.lines = a.opening :: (a.payload ++ [a.closing]) := by
  have hlen : a.span.stop + 1 - a.span.start = (a.opening :: (a.payload ++ [a.closing])).length := by
    simp only [span, List.length_cons, List.length_append, List.length_nil]
    omega
  have hlines : a.lines.drop a.span.start = a.opening :: (a.payload ++ [a.closing]) ++ a.below := by
    simp [lines, span]
  rw [slice, hlen, hlines, List.take_left]

theorem getElem?_stop (a : Parts id) : a.lines[a.span.stop]? = some a.closing := by
  rw [lines, span, List.getElem?_append_right (by dsimp only; omega)]
  have hstop : a.above.length + 1 + a.payload.length - a.above.length = a.payload.length + 1 := by
    omega
  simp only [hstop, List.getElem?_cons_succ, List.getElem?_append_right (Nat.le_refl _),
    Nat.sub_self, List.getElem?_cons_zero]

theorem start_lt_stop (a : Parts id) : a.span.start < a.span.stop := by
  simp only [span]
  omega

theorem stop_lt_length (a : Parts id) : a.span.stop < a.lines.length := by
  simp only [span, lines, List.length_append, List.length_cons]
  omega

theorem locate?_lines (a : Parts id) : locate? a.lines id = some a.span := by
  have hstart : a.lines.findIdx? (fun line ↦ guard.capture? line = some id) =
      some a.above.length := by
    refine findIdx?_eq_some_iff_append.2 ⟨a.above, a.opening, _, rfl, fun line hline ↦ ?_, ?_, rfl⟩
    · exact decide_eq_false (a.above_other line hline)
    · exact decide_eq_true a.opens
  have hdrop : a.lines.drop (a.above.length + 1) = a.payload ++ a.closing :: a.below :=
    drop_length_succ_append _ _ _
  have hstop : (a.payload ++ a.closing :: a.below).findIdx? handOver.opens =
      some a.payload.length :=
    findIdx?_eq_some_iff_append.2 ⟨_, _, _, rfl, a.payload_open, a.closes, rfl⟩
  rw [locate?, hstart]
  simp only [Option.bind_eq_bind, Option.bind_some, hdrop, hstop, Option.pure_def, span]

end Parts

theorem locate?_eq_some_iff {lines : List Text} {s : Span} :
    locate? lines id = some s ↔ ∃ a : Parts id, lines = a.lines ∧ s = a.span := by
  constructor
  · intro h
    rw [locate?] at h
    obtain ⟨start, hstart, h⟩ := Option.bind_eq_some_iff.1 h
    obtain ⟨length, hlength, h⟩ := Option.bind_eq_some_iff.1 h
    obtain rfl := Option.some.inj h
    obtain ⟨above, opening, back, rfl, habove, hopening, rfl⟩ :=
      findIdx?_eq_some_iff_append.1 hstart
    rw [drop_length_succ_append] at hlength
    obtain ⟨payload, closing, below, rfl, hpayload, hclosing, rfl⟩ :=
      findIdx?_eq_some_iff_append.1 hlength
    exact ⟨⟨above, opening, payload, closing, below,
      fun line hline ↦ of_decide_eq_false (habove line hline), of_decide_eq_true hopening,
      hpayload, hclosing⟩, rfl, rfl⟩
  · rintro ⟨a, rfl, rfl⟩
    exact a.locate?_lines

theorem locate?_eq_none {lines : List Text}
    (h : ∀ line ∈ lines, guard.capture? line ≠ some id) : locate? lines id = none := by
  have hstart : lines.findIdx? (fun line ↦ guard.capture? line = some id) = none :=
    List.findIdx?_eq_none_iff.2 fun line hline ↦ decide_eq_false (h line hline)
  rw [locate?, hstart]
  rfl

end Span

end CanvasLift.Canvas
