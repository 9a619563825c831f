import CanvasLift.Canvas.Affordance
import CanvasLift.Proofs.Component.Attribute
import CanvasLift.Proofs.Pattern.Boundary
import CanvasLift.Proofs.Text.Balance
import CanvasLift.Proofs.Text.Trim

namespace CanvasLift

namespace Attribute

def isLabelChar (c : Char) : Bool := c.isAlphanum || c = '-'

/-- What a text has in which another attribute stands: a name, and a value that is opened. -/
def HoldsAttribute (t : Text) : Prop :=
  ∃ u c mark v, t = u ++ c :: '=' :: mark :: v ∧ isLabelChar c = true ∧ (mark = '"' ∨ mark = '\x7b')

structure Written (a : Attribute) : Prop where
  name_ne_nil : a.name ≠ []
  isLabelChar_of_mem : ∀ c ∈ a.name, isLabelChar c = true
  line : '\n' ∉ a.value
  ends : match a with
    | bare _ => False
    | quoted _ value => '"' ∉ value
    | braced _ expression => Text.Balanced expression ∧ ¬ HoldsAttribute expression

def opening : Attribute → Char
  | bare _ | quoted _ _ => '"'
  | braced _ _ => '\x7b'

def closing : Attribute → Char
  | bare _ | quoted _ _ => '"'
  | braced _ _ => '\x7d'

theorem closing_cases (a : Attribute) : a.closing = '"' ∨ a.closing = '\x7d' := by
  cases a <;> simp [closing]

theorem isLabelChar_opening (a : Attribute) : isLabelChar a.opening = false ∧ a.opening ≠ '=' := by
  have hcases : a.opening = '"' ∨ a.opening = '\x7b' := by cases a <;> simp [opening]
  rcases hcases with h | h <;> rw [h] <;> decide

theorem isLabelChar_closing (a : Attribute) : isLabelChar a.closing = false ∧ a.closing ≠ '=' := by
  rcases a.closing_cases with h | h <;> rw [h] <;> decide

theorem isPadding_closing (a : Attribute) : Text.isPadding a.closing = false := by
  rcases a.closing_cases with h | h <;> rw [h] <;> decide

theorem Written.text_eq {a : Attribute} (ha : a.Written) :
    a.text = a.name ++ '=' :: a.opening :: (a.value ++ [a.closing]) := by
  cases a with
  | bare name => exact ha.ends.elim
  | quoted | braced => rfl

variable {word name value more rest w : Text} {opening closing mark : Char}

theorem not_mem_of_isLabelChar (h : ∀ c ∈ word, isLabelChar c = true) {c : Char}
    (hc : isLabelChar c = false) : c ∉ word := by
  intro hmem
  rw [h c hmem] at hc
  cases hc

theorem exists_eq_of_append_eq {s front tail : Text} {c : Char} (hc : c ∉ word)
    (h : s ++ word = front ++ c :: tail) : ∃ u, s = front ++ c :: u ∧ tail = u ++ word := by
  rcases List.append_eq_append_iff.1 h with ⟨more, -, rfl⟩ | ⟨more, rfl, hmore⟩
  · simp at hc
  · cases more with
    | nil =>
      rw [List.nil_append] at hmore
      simp [← hmore] at hc
    | cons x more =>
      obtain ⟨rfl, rfl⟩ := List.cons.inj hmore
      exact ⟨more, rfl, rfl⟩

/-- A word before an equals sign stands at the end of the name of an attribute, or in the value, or it
ends the value and the equals sign with it. -/
theorem cases_of_suffix (hname : ∀ c ∈ name, isLabelChar c = true)
    (hword : ∀ c ∈ word, isLabelChar c = true)
    (hopening : isLabelChar opening = false ∧ opening ≠ '=')
    (hclosing : isLabelChar closing = false ∧ closing ≠ '=')
    (hw : w <:+ ' ' :: (name ++ '=' :: opening :: (value ++ [closing]))) (hwne : w ≠ [])
    (heq : w ++ rest = word ++ '=' :: mark :: more) :
    (∃ front, name = front ++ word ∧ mark = opening ∧ more = value ++ closing :: rest) ∨
    (∃ u v, value = u ++ (word ++ '=' :: mark :: v) ∧ more = v ++ closing :: rest) ∨
    mark = closing ∧ more = rest ∧ ∃ u, value = u ++ (word ++ ['=']) := by
  obtain ⟨s, hs⟩ := hw
  have hspace : ' ' ∉ word := not_mem_of_isLabelChar hword (by decide)
  have htotal : (s ++ word) ++ '=' :: (mark :: more) =
      (' ' :: name) ++ '=' :: (opening :: (value ++ closing :: rest)) := by
    rw [List.append_assoc, ← heq, ← List.append_assoc, hs]
    simp
  have hequals : '=' ∉ ' ' :: name := by
    simpa using not_mem_of_isLabelChar hname (by decide)
  obtain ⟨tail, htail, hrest⟩ : ∃ tail, s ++ word = (' ' :: name) ++ tail ∧
      '=' :: (opening :: (value ++ closing :: rest)) = tail ++ '=' :: (mark :: more) := by
    rcases List.append_eq_append_iff.1 htotal with ⟨tail, hlong, hrest⟩ | h
    · cases tail with
      | nil => exact ⟨[], by simpa using hlong.symm, hrest.symm⟩
      | cons x tail =>
        obtain ⟨rfl, -⟩ := List.cons.inj hrest
        simp [hlong] at hequals
    · exact h
  cases tail with
  | nil =>
    obtain ⟨rfl, rfl⟩ := List.cons.inj (List.cons.inj hrest).2
    rw [List.append_nil] at htail
    have hname' : s ++ word = [] ++ ' ' :: name := htail
    obtain ⟨front, rfl, rfl⟩ := exists_eq_of_append_eq hspace hname'
    exact .inl ⟨front, rfl, rfl, rfl⟩
  | cons x tail =>
    obtain ⟨rfl, hvalue⟩ := List.cons.inj hrest
    cases tail with
    | nil => exact absurd (List.cons.inj hvalue).1 hopening.2
    | cons y tail =>
      obtain ⟨rfl, hinside⟩ := List.cons.inj hvalue
      have hfront : s ++ word = ((' ' :: name) ++ ['=']) ++ opening :: tail := by simpa using htail
      obtain ⟨u, rfl, rfl⟩ :=
        exists_eq_of_append_eq (not_mem_of_isLabelChar hword hopening.1) hfront
      rcases List.append_eq_append_iff.1 hinside with ⟨k, hlong, hk⟩ | ⟨k, hlong, hk⟩
      · -- The word does not reach beyond the end of the value.
        cases k with
        | nil => exact absurd (List.cons.inj hk).1 hclosing.2
        | cons z k =>
          obtain ⟨rfl, -⟩ := List.cons.inj hk
          obtain ⟨v, rfl, -⟩ :=
            exists_eq_of_append_eq (not_mem_of_isLabelChar hword hclosing.1) hlong
          have hlength := congrArg List.length hs
          have hpos := List.length_pos_iff.2 hwne
          simp only [List.length_append, List.length_cons, List.length_nil] at hlength
          omega
      · cases k with
        | nil => exact absurd (List.cons.inj hk).1.symm hclosing.2
        | cons z k =>
          obtain ⟨rfl, hmark⟩ := List.cons.inj hk
          cases k with
          | nil =>
            obtain ⟨rfl, rfl⟩ := List.cons.inj hmark
            exact .inr (.inr ⟨rfl, rfl, u, by simp [hlong]⟩)
          | cons z k =>
            obtain ⟨rfl, rfl⟩ := List.cons.inj hmark
            exact .inr (.inl ⟨u, k, by simp [hlong], rfl⟩)

end Attribute

namespace Canvas

open Pattern
open Attribute (isLabelChar)

/-- What a pattern finds: a word with an equals sign, a value from `opening` to the first `closing`, and
characters of a class before it. -/
structure Finds (a : Pattern) (p : Char → Bool) (word : Text) (opening closing : Char)
    (IsValue : Text → Prop) : Prop where
  isPlain : a.isPlain = true
  takes_iff {last : Option Char} {taken rest : Text} : a.Takes last taken rest ↔
    ∃ front value, taken = front ++ (word ++ '=' :: opening :: (value ++ [closing])) ∧
      (∀ c ∈ front, p c = true) ∧ IsValue value
  isPadding_of (c : Char) : p c = true → Text.isPadding c = true
  ne_nil : word ≠ []
  isLabelChar_of_mem : ∀ c ∈ word, isLabelChar c = true
  not_mem_of (value : Text) : IsValue value → closing ∉ value

variable {a : Pattern} {p : Char → Bool} {word : Text} {opening closing : Char} {IsValue : Text → Prop}
  {f : Text → Text} {t u v w rest taken : Text} {last : Option Char}

theorem isLabelChar_of_isPadding {c : Char} (h : Text.isPadding c = true) : isLabelChar c = false := by
  rcases (by simpa [Text.isPadding] using h : c = ' ' ∨ c = '\t') with rfl | rfl <;> decide

section

variable (h : Finds a p word opening closing IsValue)
include h

theorem Finds.opens_iff : a.opens t = true ↔ ∃ front value rest,
    t = front ++ (word ++ '=' :: opening :: (value ++ closing :: rest)) ∧ (∀ c ∈ front, p c = true) ∧
      IsValue value := by
  rw [Pattern.opens_iff]
  constructor
  · rintro ⟨taken, rest, rfl, htakes⟩
    obtain ⟨front, value, rfl, hvalue⟩ := h.takes_iff.1 htakes
    exact ⟨front, value, rest, by simp, hvalue⟩
  · rintro ⟨front, value, rest, rfl, hvalue⟩
    exact ⟨_, rest, by simp, h.takes_iff.2 ⟨front, value, rfl, hvalue⟩⟩

theorem Finds.unique : a.Unique := by
  intro taken rest u v heq htaken hu
  obtain ⟨front, value, rfl, hfront, hvalue⟩ := h.takes_iff.1 htaken
  obtain ⟨front', value', rfl, hfront', hvalue'⟩ := h.takes_iff.1 hu
  have hhead : ∀ r : Text, ∃ c ∈ (word ++ r).head?, p c = false := by
    intro r
    obtain ⟨x, word, rfl⟩ := List.exists_cons_of_ne_nil h.ne_nil
    refine ⟨x, rfl, ?_⟩
    rw [← Bool.not_eq_true]
    intro hx
    have hlabel := h.isLabelChar_of_mem x List.mem_cons_self
    rw [isLabelChar_of_isPadding (h.isPadding_of x hx)] at hlabel
    cases hlabel
  have hstop : ∀ {value}, IsValue value → ∀ c ∈ value, decide (c ≠ closing) = true := by
    intro value hvalue c hc
    rw [decide_eq_true_iff]
    rintro rfl
    exact h.not_mem_of value hvalue hc
  simp only [List.append_assoc, List.cons_append] at heq
  obtain ⟨rfl, hword⟩ := Text.append_inj_of_head hfront hfront' (hhead _) (hhead _) heq
  have hinside := (List.cons.inj (List.cons.inj (List.append_cancel_left hword)).2).2
  obtain ⟨rfl, -⟩ := Text.append_cons_inj (hstop hvalue) (hstop hvalue') (by simp) (by simp) hinside
  rfl

theorem Finds.replace_kept {b : Attribute} (hb : b.Written)
    (hname : ∀ front, b.name = front ++ word → opening = b.opening →
      ∀ value more, b.value ++ b.closing :: rest = value ++ closing :: more → ¬ IsValue value)
    (hvalue : ∀ u v, b.value = u ++ (word ++ '=' :: opening :: v) →
      ∀ value more, v ++ b.closing :: rest = value ++ closing :: more → ¬ IsValue value)
    (hend : opening = b.closing → (∃ u, b.value = u ++ (word ++ ['='])) →
      ∀ value more, rest = value ++ closing :: more → ¬ IsValue value) :
    a.replace f (' ' :: (b.text ++ rest)) = ' ' :: (b.text ++ a.replace f rest) := by
  refine replace_append_of_not_opens (u := ' ' :: b.text) h.isPlain f fun w hw hne ↦ ?_
  rw [← Bool.not_eq_true, h.opens_iff]
  rintro ⟨front, value, more, heq, hfront, hisValue⟩
  rw [hb.text_eq] at hw
  have hclosing : b.closing ∉ front := by
    intro hmem
    have hpadding := h.isPadding_of _ (hfront _ hmem)
    rw [b.isPadding_closing] at hpadding
    cases hpadding
  have hlast : b.closing ∈ w := by
    have hw' : w <:+ (' ' :: (b.name ++ '=' :: b.opening :: b.value)) ++ [b.closing] := by
      simpa using hw
    obtain ⟨w, rfl, -⟩ := (List.suffix_concat_iff.1 hw').resolve_left hne
    simp
  obtain ⟨w', rfl, hw', hrest⟩ : ∃ w', w = front ++ w' ∧ w' ≠ [] ∧
      w' ++ rest = word ++ '=' :: opening :: (value ++ closing :: more) := by
    rcases List.append_eq_append_iff.1 heq with ⟨k, rfl, -⟩ | ⟨k, rfl, hk⟩
    · exact absurd (List.mem_append_left k hlast) hclosing
    · refine ⟨k, rfl, ?_, hk.symm⟩
      rintro rfl
      rw [List.append_nil] at hlast
      exact hclosing hlast
  rcases Attribute.cases_of_suffix hb.isLabelChar_of_mem h.isLabelChar_of_mem b.isLabelChar_opening
      b.isLabelChar_closing ((List.suffix_append front w').trans hw) hw' hrest with
    ⟨n, hn, hmark, hmore⟩ | ⟨u, v, hu, hmore⟩ | ⟨hmark, hmore, hu⟩
  · exact hname n hn hmark value more hmore.symm hisValue
  · exact hvalue u v hu value more hmore.symm hisValue
  · exact hend hmark hu value more hmore.symm hisValue

theorem Finds.replace_plain (hequals : '=' ∉ u) (hlast : ∀ c ∈ u.getLast?, Text.isPadding c = false)
    (hrest : ∀ c ∈ rest.head?, isLabelChar c = false ∧ c ≠ '=') :
    a.replace f (u ++ rest) = u ++ a.replace f rest := by
  refine replace_append_of_not_opens h.isPlain f fun w hw hne ↦ ?_
  rw [← Bool.not_eq_true, h.opens_iff]
  rintro ⟨front, value, more, heq, hfront, -⟩
  obtain ⟨s, rfl⟩ := hw
  rw [List.mem_append, not_or] at hequals
  have hhead : ∀ r : Text, rest ≠ '=' :: r := by
    rintro r rfl
    exact (hrest '=' rfl).2 rfl
  rw [← List.append_assoc] at heq
  rcases List.append_eq_append_iff.1 heq with ⟨k, hk, htail⟩ | ⟨k, rfl, htail⟩
  · cases k with
    | nil => exact hhead _ htail
    | cons d k =>
      have hd : d ∉ word :=
        Attribute.not_mem_of_isLabelChar h.isLabelChar_of_mem (hrest d (by simp [htail])).1
      obtain ⟨u, rfl, -⟩ := Attribute.exists_eq_of_append_eq hd hk
      obtain rfl | ⟨w, c, rfl⟩ := List.eq_nil_or_concat w
      · exact hne rfl
      · have hpadding := h.isPadding_of c (hfront c (by simp))
        rw [hlast c (by simp)] at hpadding
        cases hpadding
  · cases k with
    | nil => exact hhead _ htail.symm
    | cons d k =>
      obtain ⟨rfl, -⟩ := List.cons.inj htail
      simp at hequals

theorem Finds.replace_found {front value replacement : Text} (hfront : ∀ c ∈ front, p c = true)
    (hvalue : IsValue value)
    (hf : ∀ d ∈ a.ends (.start (front ++ (word ++ '=' :: opening :: (value ++ closing :: rest)))),
      f d.captured = replacement) :
    a.replace f (front ++ (word ++ '=' :: opening :: (value ++ closing :: rest))) =
      replacement ++ a.replace f rest := by
  have hsplit : front ++ (word ++ '=' :: opening :: (value ++ closing :: rest)) =
      (front ++ (word ++ '=' :: opening :: (value ++ [closing]))) ++ rest := by simp
  rw [hsplit] at hf ⊢
  exact replace_append_of_takes h.isPlain h.unique (by simp)
    (h.takes_iff.2 ⟨front, value, rfl, hfront, hvalue⟩) hf

theorem Finds.replace_behind (hp : ∀ c, p c = false) {front value replacement : Text}
    (hfront : '=' ∉ front) (hvalue : IsValue value)
    (hf : ∀ d ∈ a.ends (.start (word ++ '=' :: opening :: (value ++ closing :: rest))),
      f d.captured = replacement) :
    a.replace f (front ++ (word ++ '=' :: opening :: (value ++ closing :: rest))) =
      front ++ (replacement ++ a.replace f rest) := by
  have hempty : ∀ c ∈ ([] : Text), p c = true := by simp
  have hfound := h.replace_found hempty hvalue hf
  rw [List.nil_append] at hfound
  rw [replace_append_of_not_opens h.isPlain f, hfound]
  intro w hw hne
  rw [← Bool.not_eq_true, h.opens_iff]
  rintro ⟨pad, value', more, heq, hpad, -⟩
  obtain rfl : pad = [] := List.eq_nil_iff_forall_not_mem.2 fun c hc ↦ by
    have hc := hpad c hc
    rw [hp] at hc
    cases hc
  have hword : '=' ∉ word := Attribute.not_mem_of_isLabelChar h.isLabelChar_of_mem (by decide)
  have hw' : '=' ∉ w ++ word := fun hmem ↦
    (List.mem_append.1 hmem).elim (fun hmem ↦ hfront (hw.subset hmem)) hword
  rw [List.nil_append, ← List.append_assoc] at heq
  exact hne (List.append_left_eq_self.1 (Text.eq_of_append_cons hw' hword heq))

end

def handler : Pattern := chain [padding, literal "onMouseDown=", braced]

def exactly (word : Text) (opening : Char) (value : Text) (closing : Char) : Pattern :=
  chain [padding, literal (word ++ '=' :: opening :: (value ++ [closing]))]

def roleButton : Pattern := exactly "role" '"' "button" '"'

def tabStop : Pattern := exactly "tabIndex" '\x7b' "0" '\x7d'

theorem eraseAttributes_eq (line : Text) :
    eraseAttributes line = tabStop.erase (roleButton.erase (handler.erase line)) := rfl

theorem takes_braced : braced.Takes last taken rest ↔ ∃ value, taken = '\x7b' :: (value ++ ['\x7d']) ∧
    value ≠ [] ∧ ∀ c ∈ value, c ≠ '\x7d' ∧ c ≠ '\n' := by
  constructor
  · intro h
    obtain ⟨opened, _, rfl, hopened, value, _, rfl, hvalue, closed, _, rfl, hclosed, rfl⟩ := h
    rw [takes_literal.1 hopened, takes_literal.1 hclosed]
    refine ⟨value, rfl, ?_⟩
    simpa using takes_run.1 hvalue
  · intro h
    obtain ⟨value, rfl, hne, hall⟩ := h
    exact takes_chain_append (u := ['\x7b']) (takes_literal.2 rfl) (takes_chain_append
      (takes_run.2 ⟨hne, by simpa using hall⟩) (takes_chain_singleton (takes_literal.2 rfl)))

theorem finds_handler : Finds handler Text.isPadding "onMouseDown" '\x7b' '\x7d'
    (fun value ↦ value ≠ [] ∧ ∀ c ∈ value, c ≠ '\x7d' ∧ c ≠ '\n') where
  isPlain := by decide
  takes_iff := by
    intro last taken rest
    constructor
    · intro h
      obtain ⟨front, _, rfl, hfront, word, _, rfl, hword, inside, _, rfl, hinside, rfl⟩ := h
      obtain ⟨value, rfl, hvalue⟩ := takes_braced.1 hinside
      rw [takes_literal.1 hword]
      exact ⟨front, value, by simp, hfront, hvalue⟩
    · intro h
      obtain ⟨front, value, rfl, hfront, hvalue⟩ := h
      exact takes_chain_append hfront (takes_chain_append (u := "onMouseDown=") (takes_literal.2 rfl)
        (takes_chain_singleton (takes_braced.2 ⟨value, rfl, hvalue⟩)))
  isPadding_of := fun _ hc ↦ hc
  ne_nil := by decide
  isLabelChar_of_mem := Text.forall_mem_of_all (by decide)
  not_mem_of := fun value hvalue hmem ↦ (hvalue.2 _ hmem).1 rfl

theorem finds_exactly {value : Text} (hne : word ≠ []) (hword : ∀ c ∈ word, isLabelChar c = true)
    (hvalue : closing ∉ value) :
    Finds (exactly word opening value closing) Text.isPadding word opening closing (· = value) where
  isPlain := by simp [exactly, chain, isPlain, padding, isPlain_literal]
  takes_iff := by
    intro last taken rest
    constructor
    · rintro ⟨front, _, rfl, hfront, found, _, rfl, hfound, rfl⟩
      rw [takes_literal.1 hfound]
      exact ⟨front, value, by simp, hfront, rfl⟩
    · rintro ⟨front, value, rfl, hfront, rfl⟩
      exact takes_chain_append hfront (takes_chain_singleton (takes_literal.2 rfl))
  isPadding_of := fun _ hc ↦ hc
  ne_nil := hne
  isLabelChar_of_mem := hword
  not_mem_of := by
    rintro _ rfl
    exact hvalue

theorem finds_roleButton : Finds roleButton Text.isPadding "role" '"' '"' (· = "button") :=
  finds_exactly (by decide) (Text.forall_mem_of_all (by decide)) (by decide)

theorem finds_tabStop : Finds tabStop Text.isPadding "tabIndex" '\x7b' '\x7d' (· = "0") :=
  finds_exactly (by decide) (Text.forall_mem_of_all (by decide)) (by decide)

theorem finds_classAttribute :
    Finds classAttribute (fun _ ↦ false) "className" '"' '"' (fun value ↦ '"' ∉ value) where
  isPlain := by decide
  takes_iff := by
    intro last taken rest
    constructor
    · rintro ⟨word, _, rfl, hword, value, _, rfl, hvalue, closed, _, rfl, hclosed, rfl⟩
      rw [takes_literal.1 hword, takes_literal.1 hclosed]
      exact ⟨[], value, by simp, by simp, fun hmem ↦ by simpa using hvalue _ hmem⟩
    · rintro ⟨front, value, rfl, hfront, hvalue⟩
      obtain rfl : front = [] := List.eq_nil_iff_forall_not_mem.2 fun c hc ↦ by cases hfront c hc
      refine takes_chain_append (u := "className=\"") (takes_literal.2 rfl) (takes_chain_append ?_
        (takes_chain_singleton (takes_literal.2 rfl)))
      intro c hc
      rw [decide_eq_true_iff]
      rintro rfl
      exact hvalue hc
  isPadding_of := fun _ hc ↦ by cases hc
  ne_nil := by decide
  isLabelChar_of_mem := Text.forall_mem_of_all (by decide)
  not_mem_of := fun _ hvalue ↦ hvalue

end Canvas

end CanvasLift
