import CanvasLift.Text.Word

/-!
Patterns of text with preferences: where several ways to match exist, `Pattern.ends` lists them in
order, a longer run of characters and an earlier alternative first, and the first of them counts.
`Pattern.search` finds it without the others; the main statement is that both agree.
-/

namespace CanvasLift

/-- A place in a text: what stands before it, nearest first, as far as it matters, what stands after
it, and the text that a capture took on the way there. -/
structure Cursor where
  before : Text
  after : Text
  captured : Text := []

namespace Cursor

def between (last : Option Char) (t : Text) : Cursor := ⟨last.toList, t, []⟩

def start (t : Text) : Cursor := between none t

def offset (c : Cursor) : Nat := c.before.length

def upTo (c d : Cursor) : Text := c.after.take (d.offset - c.offset)

/-- The places reached over characters of a class, the furthest first, ahead of `nearer` ones. -/
def runs (p : Char → Bool) (captured : Text) : (before after : Text) → List Cursor → List Cursor
  | before, [], nearer => ⟨before, [], captured⟩ :: nearer
  | before, x :: after, nearer =>
    let here : Cursor := ⟨before, x :: after, captured⟩
    if p x then runs p captured (x :: before) after (here :: nearer) else here :: nearer

end Cursor

inductive Pattern
  | empty
  | one (p : Char → Bool)
  | many (p : Char → Bool)
  /-- Takes nothing, between two characters of which either may be missing. -/
  | between (p : Option Char → Option Char → Bool)
  | seq (a b : Pattern)
  | alt (a b : Pattern)
  | capture (a : Pattern)

namespace Pattern

/-- The places where a match from a cursor may end, the preferred one first. -/
def ends : Pattern → Cursor → List Cursor
  | empty, c => [c]
  | one p, c =>
    match c.after with
    | [] => []
    | x :: rest => if p x then [⟨x :: c.before, rest, c.captured⟩] else []
  | many p, c => Cursor.runs p c.captured c.before c.after []
  | between p, c => if p c.before.head? c.after.head? then [c] else []
  | seq a b, c => (a.ends c).flatMap b.ends
  | alt a b, c => a.ends c ++ b.ends c
  | capture a, c => (a.ends c).map fun d ↦ { d with captured := c.upTo d }

def chain (parts : List Pattern) : Pattern := parts.foldr seq empty

def literal (t : Text) : Pattern := chain (t.map fun c ↦ one (· = c))

def oneOf (choices : List Text) : Pattern :=
  match choices with
  | [] => one fun _ ↦ false
  | [t] => literal t
  | t :: rest => alt (literal t) (oneOf rest)

def run (p : Char → Bool) : Pattern := seq (one p) (many p)

def optional (a : Pattern) : Pattern := alt a empty

/-- Where a word character and its opposite, or an end of the text, meet. -/
def wordEdge : Pattern :=
  between fun l r ↦ l.any Text.isWord != r.any Text.isWord

def lineStart : Pattern := between fun l _ ↦ l.all (· = '\n')

def lineEnd : Pattern := between fun _ r ↦ r.all (· = '\n')

def search {α : Type} : Pattern → Cursor → (Cursor → Option α) → Option α
  | empty, c, f => f c
  | one p, c, f =>
    match c.after with
    | [] => none
    | x :: rest => if p x then f ⟨x :: c.before, rest, c.captured⟩ else none
  | many p, c, f => (Cursor.runs p c.captured c.before c.after []).findSome? f
  | between p, c, f => if p c.before.head? c.after.head? then f c else none
  | seq a b, c, f => a.search c fun d ↦ b.search d f
  | alt a b, c, f =>
    match a.search c f with
    | some found => some found
    | none => b.search c f
  | capture a, c, f => a.search c fun d ↦ f { d with captured := c.upTo d }

def end? (a : Pattern) (c : Cursor) : Option Cursor := a.search c some

def captureAfter? (a : Pattern) : (last : Option Char) → Text → Option Text
  | last, [] => (a.end? (.between last [])).map (·.captured)
  | last, x :: rest =>
    match a.end? (.between last (x :: rest)) with
    | some d => some d.captured
    | none => captureAfter? a (some x) rest

def capture? (a : Pattern) (t : Text) : Option Text := a.captureAfter? none t

def occursIn (a : Pattern) (t : Text) : Bool := (a.capture? t).isSome

def opens (a : Pattern) (t : Text) : Bool := (a.end? (Cursor.start t)).isSome

def spans (a : Pattern) (t : Text) : Bool := (a.ends (Cursor.start t)).any (·.after.isEmpty)

/-- A text in pieces: characters outside every match, and matches. -/
inductive Piece
  | kept (c : Char)
  | hit (text captured : Text)

/-- The pieces of a text that a character may precede, after `skip` characters that the match before
it took. A match that takes nothing is passed over. -/
def piecesAfter (a : Pattern) : (skip : Nat) → (last : Option Char) → Text → List Piece
  | _, _, [] => []
  | skip + 1, _, x :: rest => piecesAfter a skip (some x) rest
  | 0, last, x :: rest =>
    let here := Cursor.between last (x :: rest)
    match a.end? here with
    | some d =>
      match d.offset - here.offset with
      | 0 => .kept x :: piecesAfter a 0 (some x) rest
      | taken + 1 => .hit (here.upTo d) d.captured :: piecesAfter a taken (some x) rest
    | none => .kept x :: piecesAfter a 0 (some x) rest

def pieces (a : Pattern) (t : Text) : List Piece := a.piecesAfter 0 none t

def replace (a : Pattern) (f : Text → Text) (t : Text) : Text :=
  (a.pieces t).flatMap fun
    | .kept c => [c]
    | .hit _ captured => f captured

def erase (a : Pattern) (t : Text) : Text := a.replace (fun _ ↦ []) t

def captures (a : Pattern) (t : Text) : List Text :=
  (a.pieces t).filterMap fun
    | .kept _ => none
    | .hit _ captured => some captured

theorem findSome?_flatMap {α β γ : Type} (g : α → List β) (f : β → Option γ) (xs : List α) :
    (xs.flatMap g).findSome? f = xs.findSome? fun x ↦ (g x).findSome? f := by
  induction xs with
  | nil => rfl
  | cons x xs ih =>
    rw [List.flatMap_cons, List.findSome?_append, List.findSome?_cons, ih]
    cases (g x).findSome? f <;> rfl

theorem search_eq_findSome? {α : Type} (a : Pattern) (c : Cursor) (f : Cursor → Option α) :
    a.search c f = (a.ends c).findSome? f := by
  induction a generalizing c f with
  | empty => simp [search, ends]
  | one p =>
    rw [search, ends]
    split
    · rfl
    · split <;> simp
  | many p => rfl
  | between p =>
    rw [search, ends]
    split <;> simp
  | seq a b iha ihb => simp only [search, ends, iha, ihb, findSome?_flatMap]
  | alt a b iha ihb =>
    rw [search, ends, iha, ihb, List.findSome?_append]
    cases (a.ends c).findSome? f <;> rfl
  | capture a iha => simp [search, ends, iha, List.findSome?_map, Function.comp_def]

theorem end?_eq_head? (a : Pattern) (c : Cursor) : a.end? c = (a.ends c).head? := by
  rw [end?, search_eq_findSome?]
  cases a.ends c <;> rfl

end Pattern

end CanvasLift
