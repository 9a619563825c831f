import CanvasLift.Proofs.Canvas.Markup
import CanvasLift.Proofs.Pattern.Replacement

namespace CanvasLift.Canvas

open Pattern

variable {last : Option Char} {c : Char} {t u v name rest out : Text} {names : List Text}

theorem isWord_of_isNameChar (h : isNameChar c = true) : Text.isWord c = true := by
  rw [Text.isWord, Bool.or_eq_true]
  obtain halnum | hline := Bool.or_eq_true_iff.1 h
  · right
    rw [Text.isAlphanumeric, if_pos (Identifier.toNat_lt_of_isAlphanum halnum)]
    exact halnum
  · exact .inl hline

structure IsPropName (name : Text) : Prop where
  start : ∃ c ∈ name.head?, isNameStart c = true
  isNameChar_of_mem : ∀ c ∈ name, isNameChar c = true

theorem IsPropName.isWord_of_mem (h : IsPropName name) : ∀ c ∈ name, Text.isWord c = true :=
  fun c hc ↦ isWord_of_isNameChar (h.isNameChar_of_mem c hc)

theorem IsPropName.ne_nil (h : IsPropName name) : name ≠ [] := by
  intro hnil
  obtain ⟨c, hc, -⟩ := h.start
  rw [hnil] at hc
  cases hc

def EndsWord (rest : Text) : Prop := ∀ c ∈ rest.head?, Text.isWord c = false

def firstWord (t : Text) : Text := t.takeWhile Text.isWord

theorem firstWord_append (hname : ∀ c ∈ name, Text.isWord c = true) (hrest : EndsWord rest) :
    firstWord (name ++ rest) = name := (Text.takeWhile_append_of_head hname hrest).1

theorem exists_eq_firstWord_append (t : Text) : ∃ rest, t = firstWord t ++ rest ∧ EndsWord rest := by
  refine ⟨t.dropWhile Text.isWord, List.takeWhile_append_dropWhile.symm, ?_⟩
  intro c hc
  have hstop := List.head?_dropWhile_not Text.isWord t
  rw [hc] at hstop
  simpa using hstop

theorem lastOver_of_ne_nil (hne : u ≠ []) (last : Option Char) :
    lastOver last u = some (u.getLast hne) := by
  rw [lastOver, List.getLast?_eq_some_getLast hne, Option.some_or]

theorem isWord_lastOver (hu : ∀ c ∈ u, Text.isWord c = true) (hne : u ≠ []) :
    (lastOver last u).any Text.isWord = true := by
  rw [lastOver_of_ne_nil hne]
  exact hu _ (List.getLast_mem hne)

theorem takes_name_iff :
    (chain [one isNameStart, many isNameChar]).Takes last t rest ↔ IsPropName t := by
  constructor
  · intro h
    obtain ⟨_, _, rfl, ⟨first, rfl, hfirst⟩, more, _, rfl, hmore, rfl⟩ := h
    rw [List.append_nil]
    exact ⟨⟨first, rfl, hfirst⟩, List.forall_mem_cons.2 ⟨isNameChar_of_isNameStart hfirst, hmore⟩⟩
  · intro h
    obtain ⟨c, hc, hstart⟩ := h.start
    obtain ⟨more, rfl⟩ := List.head?_eq_some_iff.1 hc
    exact takes_chain_append (u := [c]) ⟨c, rfl, hstart⟩
      (takes_chain_singleton fun d hd ↦ h.isNameChar_of_mem d (List.mem_cons_of_mem c hd))

theorem takes_wordEdge_iff : wordEdge.Takes last t ('e' :: rest) ↔
    t = [] ∧ last.any Text.isWord = false := by
  have hstart : Text.isWord 'e' = true := by decide
  refine and_congr_right fun _ ↦ ?_
  simp [hstart]

theorem takes_scopeReference_iff : scopeReference.Takes last t rest ↔
    last.any Text.isWord = false ∧ EndsWord rest ∧
      ∃ name, t = 'e' :: 'l' :: '.' :: name ∧ IsPropName name := by
  have hend : rest.head?.any Text.isWord = false ↔ EndsWord rest := by
    rw [EndsWord]
    cases rest.head? <;> simp
  constructor
  · intro h
    obtain ⟨_, _, rfl, hfront, word, _, rfl, hword, name, _, rfl, hname, h⟩ := h
    obtain ⟨_, _, rfl, ⟨rfl, hback⟩, rfl⟩ := h
    have hprop : IsPropName name := takes_name_iff.1 hname
    rw [takes_literal.1 hword] at hfront hback ⊢
    obtain ⟨rfl, hlast⟩ := takes_wordEdge_iff.1 hfront
    refine ⟨hlast, hend.1 ?_, name, by simp, hprop⟩
    dsimp only at hback
    rw [isWord_lastOver hprop.isWord_of_mem hprop.ne_nil] at hback
    simpa using hback
  · intro h
    obtain ⟨hlast, hrest, name, rfl, hname⟩ := h
    refine takes_chain_skip (takes_wordEdge_iff.2 ⟨rfl, hlast⟩)
      (takes_chain_append (u := "el.") (takes_literal.2 rfl) ?_)
    have hback : ((lastOver (lastOver last "el.") name).any Text.isWord !=
        rest.head?.any Text.isWord) = true := by
      rw [isWord_lastOver hname.isWord_of_mem hname.ne_nil, hend.2 hrest]
      rfl
    have hafter : (chain [wordEdge]).Takes (lastOver (lastOver last "el.") name) [] rest :=
      takes_chain_singleton ⟨rfl, hback⟩
    have happend := takes_chain_append (a := capture (chain [one isNameStart, many isNameChar]))
      (takes_name_iff.2 hname) hafter
    rwa [List.append_nil] at happend

/-- A reference opens a text. -/
def Refers (last : Option Char) (t : Text) : Prop :=
  last.any Text.isWord = false ∧ ∃ u, t = 'e' :: 'l' :: '.' :: u ∧ IsPropName (firstWord u)

theorem refers_iff_takes : Refers last t ↔
    ∃ taken rest, t = taken ++ rest ∧ scopeReference.Takes last taken rest := by
  constructor
  · intro h
    obtain ⟨hlast, u, rfl, hname⟩ := h
    obtain ⟨rest, hu, hrest⟩ := exists_eq_firstWord_append u
    refine ⟨'e' :: 'l' :: '.' :: firstWord u, rest, ?_, ?_⟩
    · simp [← hu]
    · exact takes_scopeReference_iff.2 ⟨hlast, hrest, firstWord u, rfl, hname⟩
  · intro h
    obtain ⟨taken, rest, rfl, htakes⟩ := h
    obtain ⟨hlast, hrest, name, rfl, hname⟩ := takes_scopeReference_iff.1 htakes
    refine ⟨hlast, name ++ rest, rfl, ?_⟩
    rwa [firstWord_append hname.isWord_of_mem hrest]

/-- How references are read from the left: the names, and what is left of the text. The letters of a
name are read like others, but no reference opens among them. -/
inductive Reads : (last : Option Char) → (t : Text) → (names : List Text) → (out : Text) → Prop
  | nil {last : Option Char} : Reads last [] [] []
  | reference {last : Option Char} {u out : Text} {names : List Text}
      (hlast : last.any Text.isWord = false) (hname : IsPropName (firstWord u))
      (h : Reads (some 'l') u names out) :
      Reads last ('e' :: 'l' :: '.' :: u) (firstWord u :: names) out
  | letter {last : Option Char} {c : Char} {t out : Text} {names : List Text}
      (hnone : ¬ Refers last (c :: t)) (h : Reads (some c) t names out) :
      Reads last (c :: t) names (c :: out)

theorem not_refers_of_isWord (hlast : last.any Text.isWord = true) : ¬ Refers last t := by
  intro h
  rw [h.1] at hlast
  cases hlast

theorem Reads.letters (hlast : last.any Text.isWord = true) (hu : ∀ c ∈ u, Text.isWord c = true)
    (h : Reads (lastOver last u) t names out) : Reads last (u ++ t) names (u ++ out) := by
  induction u generalizing last with
  | nil => exact h
  | cons c u ih =>
    rw [lastOver_cons] at h
    have hc : (some c).any Text.isWord = true := hu c List.mem_cons_self
    exact .letter (not_refers_of_isWord hlast) (ih hc (fun d hd ↦ hu d (List.mem_cons_of_mem c hd)) h)

def nameOf? : Piece → Option Text
  | .kept _ => none
  | .hit _ name => some name

def resolved : Piece → Text
  | .kept c => [c]
  | .hit _ name => name

theorem eq_of_mem_hit {skip : Nat} (h : .hit u name ∈ scopeReference.piecesAfter skip last t) :
    u = 'e' :: 'l' :: '.' :: name := by
  obtain ⟨here, d, -, -, hd, hreaches, rfl, -⟩ := exists_end?_of_mem_hit h
  have hparts : scopeReference = chain ([wordEdge, literal "el."] ++
      capture (chain [one isNameStart, many isNameChar]) :: [wordEdge]) := rfl
  rw [end?_eq_head?, hparts] at hd
  obtain ⟨front, back, hafter, hfront, -, hback⟩ := takes_captured rfl (List.mem_of_head? hd)
  obtain ⟨_, _, rfl, ⟨rfl, -⟩, word, _, rfl, hword, rfl⟩ := hfront
  obtain ⟨_, _, rfl, ⟨rfl, -⟩, rfl⟩ := hback
  rw [takes_literal.1 hword, hreaches.after] at hafter
  have htext : u ++ d.after = ('e' :: 'l' :: '.' :: d.captured) ++ d.after := by simpa using hafter
  exact List.append_cancel_right htext

theorem reads_pieces (last : Option Char) (t : Text) :
    Reads last t ((scopeReference.piecesAfter 0 last t).filterMap nameOf?)
      ((scopeReference.piecesAfter 0 last t).flatMap resolved) := by
  induction hlength : t.length using Nat.strongRecOn generalizing last t with
  | ind n ih =>
    cases t with
    | nil => exact .nil
    | cons x t =>
      obtain ⟨hnone, hpieces⟩ | ⟨taken, rest, name, heq, -, htakes, hpieces⟩ :=
        piecesAfter_cases scopeReference last x t
      · have hrest := ih t.length (by simp [← hlength]) (some x) t rfl
        rw [hpieces]
        refine .letter ?_ hrest
        intro hrefers
        obtain ⟨taken, rest, heq, htakes⟩ := refers_iff_takes.1 hrefers
        obtain ⟨-, -, name, hname, -⟩ := takes_scopeReference_iff.1 (hnone taken rest heq htakes)
        cases hname
      · obtain rfl := eq_of_mem_hit (hpieces ▸ List.mem_cons_self)
        obtain ⟨hlast, hends, _, hcons, hname⟩ := takes_scopeReference_iff.1 htakes
        cases hcons
        have hlength' : rest.length < n := by
          rw [← hlength, heq]
          simp
          omega
        have hrest := ih rest.length hlength' (lastOver last ('e' :: 'l' :: '.' :: name)) rest rfl
        have hword : firstWord (name ++ rest) = name := firstWord_append hname.isWord_of_mem hends
        have hlast' : lastOver last ('e' :: 'l' :: '.' :: name) = lastOver (some 'l') name := by
          rw [lastOver_cons, lastOver_cons, lastOver_cons, lastOver_of_ne_nil hname.ne_nil,
            lastOver_of_ne_nil hname.ne_nil]
        rw [hlast'] at hrest hpieces
        have hletters : Reads (some 'l') (name ++ rest) _ _ :=
          .letters rfl hname.isWord_of_mem hrest
        rw [← hword] at hname
        have href := Reads.reference hlast hname hletters
        rw [hword] at href
        rw [hpieces, heq]
        exact href

/-- A line is read so, with the names that are recorded and the text without the element. -/
theorem reads_line (line : Text) :
    Reads none line (scopeReference.captures line) (resolveReferences line) := reads_pieces none line

theorem Reads.length_add (h : Reads last t names out) : out.length + 3 * names.length = t.length := by
  induction h with
  | nil => rfl
  | reference hlast hname h ih =>
    simp only [List.length_cons]
    omega
  | letter hnone h ih =>
    simp only [List.length_cons]
    omega

theorem Reads.firstWord_eq (hlast : last.any Text.isWord = true) (h : Reads last t names out) :
    firstWord out = firstWord t := by
  induction h with
  | nil => rfl
  | reference hnone _ _ _ =>
    rw [hlast] at hnone
    cases hnone
  | @letter _ c t out names _ h ih =>
    rw [firstWord, firstWord]
    by_cases hc : Text.isWord c = true
    · rw [List.takeWhile_cons_of_pos hc, List.takeWhile_cons_of_pos hc]
      exact congrArg (c :: ·) (ih hc)
    · rw [List.takeWhile_cons_of_neg hc, List.takeWhile_cons_of_neg hc]

theorem firstWord_el (u : Text) : firstWord ('e' :: 'l' :: '.' :: u) = ['e', 'l'] := rfl

theorem isPropName_el : IsPropName ['e', 'l'] :=
  ⟨⟨'e', rfl, rfl⟩, Text.forall_mem_of_all (by decide)⟩

theorem Reads.isPropName_iff (h : Reads last t names out) :
    IsPropName (firstWord out) ↔ IsPropName (firstWord t) := by
  cases h with
  | nil => exact Iff.rfl
  | @reference _ u out names hlast hname h =>
    rw [h.firstWord_eq rfl, firstWord_el]
    exact ⟨fun _ ↦ isPropName_el, fun _ ↦ hname⟩
  | @letter _ c t out names hnone h =>
    by_cases hc : Text.isWord c = true
    · have hword : firstWord out = firstWord t := Reads.firstWord_eq (by exact hc) h
      rw [firstWord, firstWord, List.takeWhile_cons_of_pos hc, List.takeWhile_cons_of_pos hc,
        ← firstWord, ← firstWord, hword]
    · rw [firstWord, firstWord, List.takeWhile_cons_of_neg hc, List.takeWhile_cons_of_neg hc]

theorem not_refers_nil : ¬ Refers last [] := by
  intro h
  obtain ⟨-, _, hcons, -⟩ := h
  cases hcons

theorem Reads.unique {names' : List Text} {out' : Text} (h : Reads last t names out)
    (h' : Reads last t names' out') : names = names' ∧ out = out' := by
  induction h generalizing names' out' with
  | nil =>
    cases h'
    exact ⟨rfl, rfl⟩
  | reference hlast hname h ih =>
    cases h' with
    | reference _ _ h' =>
      obtain ⟨rfl, rfl⟩ := ih h'
      exact ⟨rfl, rfl⟩
    | letter hnone _ => exact absurd ⟨hlast, _, rfl, hname⟩ hnone
  | letter hnone h ih =>
    cases h' with
    | reference hlast hname _ => exact absurd ⟨hlast, _, rfl, hname⟩ hnone
    | letter _ h' =>
      obtain ⟨rfl, rfl⟩ := ih h'
      exact ⟨rfl, rfl⟩

theorem Reads.plain (hdot : '.' ∉ u) (hend : u.getLast? ≠ some 'e' ∧ u.getLast? ≠ some 'l')
    (h : Reads (lastOver last u) t names out) : Reads last (u ++ t) names (u ++ out) := by
  induction u generalizing last with
  | nil => exact h
  | cons c u ih =>
    rw [lastOver_cons] at h
    rw [List.mem_cons, not_or] at hdot
    have hlater : u.getLast? ≠ some 'e' ∧ u.getLast? ≠ some 'l' := by
      cases u with
      | nil => simp
      | cons d u => rwa [List.getLast?_cons_cons] at hend
    refine .letter ?_ (ih hdot.2 hlater h)
    intro hrefers
    obtain ⟨-, v, heq, -⟩ := hrefers
    obtain ⟨hc, heq₁⟩ := List.cons.inj heq
    cases u with
    | nil => exact hend.1 (congrArg some hc)
    | cons d u =>
      obtain ⟨hd, heq₂⟩ := List.cons.inj heq₁
      cases u with
      | nil => exact hend.2 (congrArg some hd)
      | cons e u =>
        have hfull : e = '.' := (List.cons.inj heq₂).1
        exact hdot.2 (by simp [hfull])

def Separates (x : Char) : Prop := Text.isWord x = false ∧ x ≠ '.'

theorem firstWord_append_cons {x : Char} (hx : Text.isWord x = false) :
    firstWord (u ++ x :: v) = firstWord u := by
  induction u with
  | nil => simp [firstWord, hx]
  | cons c u ih =>
    rw [List.cons_append, firstWord, firstWord, List.takeWhile_cons, List.takeWhile_cons]
    split
    · exact congrArg (c :: ·) ih
    · rfl

/-- Such a character parts a text into two that are read on their own. -/
theorem Reads.split {x : Char} (hx : Separates x) (h : Reads last (u ++ x :: v) names out) :
    ∃ names₁ out₁ names₂ out₂, Reads last u names₁ out₁ ∧ Reads (some x) v names₂ out₂ ∧
      names = names₁ ++ names₂ ∧ out = out₁ ++ x :: out₂ := by
  generalize ht : u ++ x :: v = t at h
  induction h generalizing u with
  | nil => cases List.append_ne_nil_of_right_ne_nil u (List.cons_ne_nil x v) ht
  | @reference last w out names hlast hname h ih =>
    have hel : x ∉ ['e', 'l', '.'] := by
      intro hmem
      obtain ⟨hword, hdot⟩ := hx
      rcases (by simpa using hmem : x = 'e' ∨ x = 'l' ∨ x = '.') with rfl | rfl | rfl
      · exact absurd hword (by decide)
      · exact absurd hword (by decide)
      · exact hdot rfl
    obtain ⟨u, rfl⟩ : ['e', 'l', '.'] <+: u := Text.prefix_of_prefix_append_cons hel ⟨w, ht.symm⟩
    have hrest : ['e', 'l', '.'] ++ (u ++ x :: v) = ['e', 'l', '.'] ++ w := by simpa using ht
    obtain rfl := List.append_cancel_left hrest
    obtain ⟨names₁, out₁, names₂, out₂, h₁, h₂, rfl, rfl⟩ := ih rfl
    rw [firstWord_append_cons hx.1] at hname ⊢
    exact ⟨firstWord u :: names₁, out₁, names₂, out₂, .reference hlast hname h₁, h₂, rfl, rfl⟩
  | @letter last c w out names hnone h ih =>
    cases u with
    | nil =>
      obtain ⟨rfl, rfl⟩ := List.cons.inj ht
      exact ⟨[], [], names, out, .nil, h, rfl, rfl⟩
    | cons d u =>
      obtain ⟨rfl, hrest⟩ := List.cons.inj ht
      obtain ⟨names₁, out₁, names₂, out₂, h₁, h₂, rfl, rfl⟩ := ih hrest
      refine ⟨names₁, d :: out₁, names₂, out₂, .letter ?_ h₁, h₂, rfl, rfl⟩
      intro hrefers
      obtain ⟨hlast, w, heq, hname⟩ := hrefers
      refine hnone ⟨hlast, w ++ x :: v, ?_, ?_⟩
      · rw [← ht]
        exact congrArg (· ++ x :: v) heq
      · rwa [firstWord_append_cons hx.1]

theorem Reads.mem_iff {x : Char} (hx : x ≠ 'e' ∧ x ≠ 'l' ∧ x ≠ '.') (h : Reads last t names out) :
    x ∈ out ↔ x ∈ t := by
  induction h with
  | nil => exact Iff.rfl
  | reference _ _ _ ih =>
    rw [ih, List.mem_cons, List.mem_cons, List.mem_cons, or_iff_right hx.1, or_iff_right hx.2.1,
      or_iff_right hx.2.2]
  | letter _ _ ih => rw [List.mem_cons, List.mem_cons, ih]

theorem Reads.exists_isNameChar (h : Reads last t names out) (hnames : names ≠ []) :
    ∃ c ∈ out, isNameChar c = true := by
  induction h with
  | nil => exact absurd rfl hnames
  | @reference _ u out _ _ hname h _ =>
    rw [← h.firstWord_eq rfl] at hname
    obtain ⟨c, more, heq⟩ := List.exists_cons_of_ne_nil hname.ne_nil
    have hc : c ∈ firstWord out := by simp [heq]
    exact ⟨c, (List.takeWhile_prefix _).subset hc, hname.isNameChar_of_mem c hc⟩
  | letter _ _ ih =>
    obtain ⟨c, hc, hchar⟩ := ih hnames
    exact ⟨c, List.mem_cons_of_mem _ hc, hchar⟩

theorem Reads.eq_nil_iff (h : Reads last t names out) : out = [] ↔ t = [] := by
  constructor
  · rintro rfl
    cases h with
    | nil => rfl
    | reference hlast hname h =>
      obtain ⟨c, hc, -⟩ := (Reads.reference hlast hname h).exists_isNameChar (List.cons_ne_nil _ _)
      cases hc
  · rintro rfl
    cases h
    rfl

theorem Reads.exists_of_cons (hc : last.any Text.isWord = true ∨ isNameStart c = false)
    (h : Reads last t names (c :: out)) : ∃ rest, t = c :: rest ∧ Reads (some c) rest names out := by
  cases h with
  | @reference _ u _ names hlast hname h =>
    obtain hword | hstart := hc
    · rw [hword] at hlast
      cases hlast
    · rw [← h.firstWord_eq rfl] at hname
      obtain ⟨d, hd, hdstart⟩ := hname.start
      rw [firstWord, List.head?_takeWhile, Option.mem_filter_iff] at hd
      obtain rfl : c = d := Option.some.inj hd.1
      rw [hstart] at hdstart
      cases hdstart
  | letter hnone h => exact ⟨_, rfl, h⟩

theorem Reads.eq_cons (hlast : last.any Text.isWord = true) (h : Reads last (c :: t) names out) :
    ∃ rest, out = c :: rest ∧ Reads (some c) t names rest := by
  cases h with
  | reference hnone _ _ =>
    rw [hlast] at hnone
    cases hnone
  | letter _ h => exact ⟨_, rfl, h⟩

theorem Reads.exists_of_dot (h : Reads (some 'e') t names ('l' :: '.' :: out)) :
    ∃ u, t = 'l' :: '.' :: u ∧ (IsPropName (firstWord out) ↔ IsPropName (firstWord u)) := by
  obtain ⟨t₁, ht, hl⟩ := h.exists_of_cons (.inl rfl)
  obtain ⟨u, rfl, hdot⟩ := hl.exists_of_cons (.inl rfl)
  exact ⟨u, ht, hdot.isPropName_iff⟩

/-- A reference that leads on from the prop that is named like the element. -/
def nestedReference : Pattern := chain [wordEdge, literal "el.", scopeReference]

def RefersBeyond (last : Option Char) (t : Text) : Prop :=
  last.any Text.isWord = false ∧ ∃ u, t = 'e' :: 'l' :: '.' :: u ∧ Refers (some '.') u

theorem RefersBeyond.refers (h : RefersBeyond last t) : Refers last t := by
  obtain ⟨hlast, _, rfl, -, u, rfl, -⟩ := h
  refine ⟨hlast, _, rfl, ?_⟩
  rw [firstWord_el]
  exact isPropName_el

theorem refersBeyond_iff_takes : RefersBeyond last t ↔
    ∃ taken rest, t = taken ++ rest ∧ nestedReference.Takes last taken rest := by
  constructor
  · intro h
    obtain ⟨hlast, u, rfl, hu⟩ := h
    obtain ⟨taken, rest, rfl, htakes⟩ := refers_iff_takes.1 hu
    refine ⟨'e' :: 'l' :: '.' :: taken, rest, rfl, ?_⟩
    refine takes_chain_skip (takes_wordEdge_iff.2 ⟨rfl, hlast⟩) ?_
    exact takes_chain_append (u := "el.") (takes_literal.2 rfl) (takes_chain_singleton htakes)
  · intro h
    obtain ⟨taken, rest, rfl, _, _, rfl, hfront, word, _, rfl, hword, taken, _, rfl, htakes, rfl⟩ := h
    rw [takes_literal.1 hword] at hfront htakes ⊢
    obtain ⟨rfl, hlast⟩ := takes_wordEdge_iff.1 hfront
    refine ⟨hlast, taken ++ rest, by simp, refers_iff_takes.2 ⟨taken, rest, rfl, ?_⟩⟩
    exact htakes

theorem isSome_references_cons : (scopeReference.captureAfter? last (c :: t)).isSome = true ↔
    Refers last (c :: t) ∨ (scopeReference.captureAfter? (some c) t).isSome = true := by
  rw [isSome_captureAfter?_cons, refers_iff_takes]

theorem isSome_beyond_cons : (nestedReference.captureAfter? last (c :: t)).isSome = true ↔
    RefersBeyond last (c :: t) ∨ (nestedReference.captureAfter? (some c) t).isSome = true := by
  rw [isSome_captureAfter?_cons, refersBeyond_iff_takes]

theorem captureAfter?_nil : scopeReference.captureAfter? last [] = none ∧
    nestedReference.captureAfter? last [] = none := by
  rw [← Option.not_isSome_iff_eq_none, ← Option.not_isSome_iff_eq_none, isSome_captureAfter?_iff,
    isSome_captureAfter?_iff]
  constructor
  · intro h
    obtain ⟨front, taken, rest, heq, htakes⟩ := h
    have hrefers := refers_iff_takes.2 ⟨taken, rest, rfl, htakes⟩
    rw [(List.nil_eq_append_iff.1 heq).2] at hrefers
    exact not_refers_nil hrefers
  · intro h
    obtain ⟨front, taken, rest, heq, htakes⟩ := h
    have hbeyond := refersBeyond_iff_takes.2 ⟨taken, rest, rfl, htakes⟩
    rw [(List.nil_eq_append_iff.1 heq).2] at hbeyond
    exact not_refers_nil hbeyond.refers

theorem Reads.refers_iff (hlast : last.any Text.isWord = false) (h : Reads (some 'l') u names out) :
    Refers last out ↔ Refers (some '.') u := by
  constructor
  · intro hrefers
    obtain ⟨-, o, rfl, hname⟩ := hrefers
    obtain ⟨u₁, rfl, he⟩ := h.exists_of_cons (.inl rfl)
    obtain ⟨u₂, rfl, hiff⟩ := he.exists_of_dot
    exact ⟨rfl, u₂, rfl, hiff.1 hname⟩
  · intro hrefers
    obtain ⟨-, v, rfl, hname⟩ := hrefers
    obtain ⟨o₁, rfl, he⟩ := h.eq_cons rfl
    obtain ⟨o₂, rfl, hl⟩ := he.eq_cons rfl
    obtain ⟨o₃, rfl, hdot⟩ := hl.eq_cons rfl
    exact ⟨hlast, o₃, rfl, hdot.isPropName_iff.2 hname⟩

theorem isSome_references_of_isWord (hlast : last.any Text.isWord = true) (first : Option Char) :
    (scopeReference.captureAfter? first t).isSome = true ↔
      Refers first t ∨ (scopeReference.captureAfter? last t).isSome = true := by
  cases t with
  | nil =>
    rw [captureAfter?_nil.1, captureAfter?_nil.1, or_iff_right not_refers_nil]
  | cons c t =>
    have hnone : ¬ Refers last (c :: t) := not_refers_of_isWord hlast
    rw [isSome_references_cons, isSome_references_cons, or_iff_right hnone]

theorem isSome_beyond_el (hlast : last.any Text.isWord = false) :
    (nestedReference.captureAfter? last ('e' :: 'l' :: '.' :: u)).isSome = true ↔
      Refers (some '.') u ∨ (nestedReference.captureAfter? (some 'l') u).isSome = true := by
  have he : ¬ RefersBeyond (some 'e') ('l' :: '.' :: u) := fun h ↦ not_refers_of_isWord rfl h.refers
  have hl : ¬ RefersBeyond (some 'l') ('.' :: u) := fun h ↦ not_refers_of_isWord rfl h.refers
  have hhere : RefersBeyond last ('e' :: 'l' :: '.' :: u) ↔ Refers (some '.') u := by
    constructor
    · intro h
      obtain ⟨-, v, hv, hrefers⟩ := h
      cases hv
      exact hrefers
    · exact fun h ↦ ⟨hlast, u, rfl, h⟩
  rw [isSome_beyond_cons, isSome_beyond_cons, isSome_beyond_cons, hhere, or_iff_right he,
    or_iff_right hl]
  cases u with
  | nil => rw [captureAfter?_nil.2, captureAfter?_nil.2]
  | cons c u =>
    have hword : ¬ RefersBeyond (some 'l') (c :: u) := fun h ↦ not_refers_of_isWord rfl h.refers
    rw [isSome_beyond_cons, isSome_beyond_cons, or_iff_right hword, ← or_assoc,
      or_iff_left_of_imp RefersBeyond.refers]

/-- A reference is found in what is left of a text exactly where the text has one that leads on from the
element's own name. -/
theorem Reads.isSome_iff (h : Reads last t names out) :
    (scopeReference.captureAfter? last out).isSome = true ↔
      (nestedReference.captureAfter? last t).isSome = true := by
  induction h with
  | nil => rw [captureAfter?_nil.1, captureAfter?_nil.2]
  | reference hlast hname h ih =>
    have hl : (some 'l').any Text.isWord = true := rfl
    rw [isSome_references_of_isWord hl, isSome_beyond_el hlast, ih, h.refers_iff hlast]
  | @letter last c t out names hnone h ih =>
    have hbeyond : ¬ RefersBeyond last (c :: t) := fun hbeyond ↦ hnone hbeyond.refers
    have hrefers : ¬ Refers last (c :: out) := by
      intro hrefers
      obtain ⟨hlast, o, heq, hname⟩ := hrefers
      obtain ⟨rfl, rfl⟩ := List.cons.inj heq
      obtain ⟨u, rfl, hiff⟩ := h.exists_of_dot
      exact hnone ⟨hlast, u, rfl, hiff.1 hname⟩
    rw [isSome_references_cons, isSome_beyond_cons, or_iff_right hrefers, or_iff_right hbeyond, ih]

theorem Reads.el_mem (h : Reads last t names out)
    (hbeyond : (nestedReference.captureAfter? last t).isSome = true) : ['e', 'l'] ∈ names := by
  induction h with
  | nil =>
    rw [captureAfter?_nil.2] at hbeyond
    cases hbeyond
  | reference hlast hname h ih =>
    obtain hrefers | hlater := (isSome_beyond_el hlast).1 hbeyond
    · obtain ⟨-, u, rfl, -⟩ := hrefers
      rw [firstWord_el]
      exact List.mem_cons_self
    · exact List.mem_cons_of_mem _ (ih hlater)
  | letter hnone h ih =>
    obtain hhere | hlater := isSome_beyond_cons.1 hbeyond
    · exact absurd hhere.refers hnone
    · exact ih hlater

theorem occursIn_resolveReferences (line : Text) :
    scopeReference.occursIn (resolveReferences line) = nestedReference.occursIn line :=
  Bool.eq_iff_iff.2 (reads_line line).isSome_iff

theorem captures_scopeReference_eq_nil_iff :
    scopeReference.captures t = [] ↔ scopeReference.occursIn t = false := by
  refine captures_eq_nil_iff fun last rest htakes ↦ ?_
  obtain ⟨-, -, _, hcons, -⟩ := takes_scopeReference_iff.1 htakes
  cases hcons

theorem resolveReferences_eq_self_iff :
    resolveReferences t = t ↔ scopeReference.occursIn t = false := by
  rw [← captures_scopeReference_eq_nil_iff]
  constructor
  · intro h
    have hlength := (reads_line t).length_add
    rw [h] at hlength
    exact List.length_eq_zero_iff.1 (by omega)
  · exact fun h ↦ replace_eq_self h id

theorem recordReferences_of_captures {found : List Text} (h : scopeReference.captures t = []) :
    recordReferences found t = found := by
  rw [recordReferences, h]
  rfl

/-- A reference is left in a line exactly where one led on from the prop that is named like the element,
and then that prop is recorded. In any other line nothing is left to resolve or to record. -/
theorem references_left_iff (found : List Text) (line : Text) :
    (scopeReference.occursIn (resolveReferences line) = true ↔ nestedReference.occursIn line = true) ∧
      (nestedReference.occursIn line = true → ("el" : Text) ∈ recordReferences found line) ∧
      (resolveReferences (resolveReferences line) = resolveReferences line ↔
        nestedReference.occursIn line = false) ∧
      (nestedReference.occursIn line = false →
        recordReferences (recordReferences found line) (resolveReferences line) =
          recordReferences found line) := by
  have hleft := occursIn_resolveReferences line
  refine ⟨by rw [hleft], fun hnested ↦ ?_, ?_, fun hnone ↦ ?_⟩
  · exact Text.mem_foldl_addNew_iff.2 (.inr ((reads_line line).el_mem hnested))
  · rw [resolveReferences_eq_self_iff, hleft]
  · rw [hnone] at hleft
    exact recordReferences_of_captures (captures_scopeReference_eq_nil_iff.2 hleft)

theorem references_left_iff_of_title :
    resolveReferences (resolveReferences "\x7bel.title\x7d") = resolveReferences "\x7bel.title\x7d" :=
  (references_left_iff [] "\x7bel.title\x7d").2.2.1.2 (by decide)

/-- A part of that prop still looks like a reference. -/
theorem part_of_el_left :
    resolveReferences "el.el.x" = "el.x" ∧ scopeReference.occursIn "el.x" = true ∧
      resolveReferences (resolveReferences "el.el.x") = "x" ∧
      recordReferences (recordReferences [] "el.el.x") (resolveReferences "el.el.x") =
        (["el", "x"] : List Text) := by
  decide

end CanvasLift.Canvas
