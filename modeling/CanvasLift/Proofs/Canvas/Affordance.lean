import CanvasLift.Proofs.Canvas.Attributes
import CanvasLift.Proofs.Component.Replaced

namespace CanvasLift.Canvas

open Pattern
open Attribute (isLabelChar HoldsAttribute)

variable {f : Text → Text} {t u v w rest : Text} {b : Attribute}

def isHandler : Attribute → Bool
  | .braced name _ => name = "onMouseDown"
  | _ => false

def isRoleButton : Attribute → Bool
  | .quoted name value => name = "role" && value = "button"
  | _ => false

def isTabStop : Attribute → Bool
  | .braced name expression => name = "tabIndex" && expression = "0"
  | _ => false

/-- Whether an attribute is there for the canvas only. -/
def isCanvas (b : Attribute) : Bool := isHandler b || isRoleButton b || isTabStop b

theorem isCanvas_quoted {name value : Text} :
    isCanvas (.quoted name value) = true ↔ name = "role" ∧ value = "button" := by
  change (false || (decide (name = "role") && decide (value = "button")) || false) = true ↔ _
  rw [Bool.or_false, Bool.false_or, Bool.and_eq_true, decide_eq_true_iff, decide_eq_true_iff]

theorem isCanvas_braced {name expression : Text} : isCanvas (.braced name expression) = true ↔
    name = "onMouseDown" ∨ name = "tabIndex" ∧ expression = "0" := by
  change (decide (name = "onMouseDown") || false ||
    (decide (name = "tabIndex") && decide (expression = "0"))) = true ↔ _
  rw [Bool.or_false, Bool.or_eq_true, Bool.and_eq_true, decide_eq_true_iff, decide_eq_true_iff,
    decide_eq_true_iff]

def cleaned : Attribute → Attribute
  | .quoted name value => .quoted name (if name = "className" then cleanClasses value else value)
  | b => b

def EndsBeyond (word t : Text) : Prop := ∃ front, front ≠ [] ∧ t = front ++ word

/-- What an attribute must not have for the patterns to tell canvas attributes from others: a handler
that is empty or has a brace closed in it, a name that goes on to the left of the name of a canvas
attribute before such a value, and canvas attributes inside a quoted value. -/
def Clear : Attribute → Prop
  | .bare _ => True
  | .quoted name value =>
    (EndsBeyond "role" name → value ≠ "button") ∧
    (EndsBeyond "className" name → collapseSpaces (cleanClasses value) = collapseSpaces value) ∧
    (¬ ("className" : Text) <:+ name → ¬ ("className=" : Text) <:+ value) ∧
    ¬ ("tabIndex=\x7b0\x7d" : Text) <:+: value ∧
    ∀ u v, value = u ++ (("onMouseDown=\x7b" : Text) ++ v) → v.head? = some '\x7d'
  | .braced name expression =>
    (name = "onMouseDown" → expression ≠ [] ∧ '\x7d' ∉ expression) ∧
    (EndsBeyond "onMouseDown" name → expression = []) ∧
    (EndsBeyond "tabIndex" name → expression ≠ "0")

def Follows (rest : Text) : Prop := ∃ c ∈ rest.head?, c = ' ' ∨ c = '/' ∨ c = '>'

theorem Finds.holdsAttribute {a : Pattern} {p : Char → Bool} {word : Text} {opening closing : Char}
    {IsValue : Text → Prop} (h : Finds a p word opening closing IsValue)
    (hopening : opening = '"' ∨ opening = '\x7b') (ht : t = u ++ (word ++ '=' :: opening :: v)) :
    HoldsAttribute t := by
  have hlabel := h.isLabelChar_of_mem
  obtain rfl | ⟨word, c, rfl⟩ := List.eq_nil_or_concat word
  · exact absurd rfl h.ne_nil
  · exact ⟨u ++ word, c, opening, v, by simp [ht], hlabel c (by simp), hopening⟩

theorem ne_of_endsBeyond {word front name : Text} (hname : name = front ++ word) (hne : name ≠ word) :
    EndsBeyond word name := by
  refine ⟨front, ?_, hname⟩
  rintro rfl
  exact hne hname

theorem erase_handler (hb : b.Written) (hclear : Clear b) (rest : Text) :
    handler.erase (' ' :: (b.text ++ rest)) =
      (if isHandler b then [] else ' ' :: b.text) ++ handler.erase rest := by
  by_cases hremoved : isHandler b = true
  · rw [if_pos hremoved]
    cases b with
    | bare | quoted => cases hremoved
    | braced name expression =>
      obtain rfl : name = "onMouseDown" := of_decide_eq_true hremoved
      obtain ⟨hne, hclosed⟩ := hclear.1 rfl
      have hvalue : ∀ c ∈ expression, c ≠ '\x7d' ∧ c ≠ '\n' := by
        intro c hc
        exact ⟨fun h ↦ hclosed (h ▸ hc), fun h ↦ hb.line (h ▸ hc)⟩
      have htext : ' ' :: ((Attribute.braced "onMouseDown" expression).text ++ rest) =
          [' '] ++ (("onMouseDown" : Text) ++ '=' :: '\x7b' :: (expression ++ '\x7d' :: rest)) := by
        simp [Attribute.text]
      rw [htext]
      exact finds_handler.replace_found (Text.forall_mem_of_all (by decide)) ⟨hne, hvalue⟩ fun _ _ ↦ rfl
  · rw [if_neg hremoved]
    have hempty : ∀ {value more rest : Text}, '\x7d' :: rest = value ++ '\x7d' :: more →
        ¬ (value ≠ [] ∧ ∀ c ∈ value, c ≠ '\x7d' ∧ c ≠ '\n') := by
      rintro value more rest heq ⟨hne, hvalue⟩
      obtain ⟨c, value, rfl⟩ := List.exists_cons_of_ne_nil hne
      obtain ⟨rfl, -⟩ := List.cons.inj heq
      exact (hvalue _ List.mem_cons_self).1 rfl
    refine finds_handler.replace_kept hb ?_ ?_ ?_
    · intro front hname hopening value more heq
      cases b with
      | bare | quoted => cases hopening
      | braced name expression =>
        have hne : name ≠ "onMouseDown" := fun h ↦ hremoved (decide_eq_true h)
        have hnil : expression = [] := hclear.2.1 (ne_of_endsBeyond hname hne)
        subst hnil
        exact hempty heq
    · intro u v hvalue value more heq
      cases b with
      | bare => exact hb.ends.elim
      | quoted name written =>
        obtain ⟨v, rfl⟩ := List.head?_eq_some_iff.1 (hclear.2.2.2.2 u v hvalue)
        exact hempty heq
      | braced name expression =>
        exact absurd (finds_handler.holdsAttribute (.inr rfl) hvalue) hb.ends.2
    · intro hopening
      cases b <;> cases hopening

theorem erase_roleButton (hb : b.Written) (hclear : Clear b) (hrest : Follows rest) :
    roleButton.erase (' ' :: (b.text ++ rest)) =
      (if isRoleButton b then [] else ' ' :: b.text) ++ roleButton.erase rest := by
  by_cases hremoved : isRoleButton b = true
  · rw [if_pos hremoved]
    cases b with
    | bare | braced => cases hremoved
    | quoted name value =>
      obtain ⟨hname, hvalue⟩ := Bool.and_eq_true_iff.1 hremoved
      obtain rfl : name = "role" := of_decide_eq_true hname
      obtain rfl : value = "button" := of_decide_eq_true hvalue
      have htext : ' ' :: ((Attribute.quoted "role" "button").text ++ rest) =
          [' '] ++ (("role" : Text) ++ '=' :: '"' :: ("button" ++ '"' :: rest)) := rfl
      rw [htext]
      exact finds_roleButton.replace_found (Text.forall_mem_of_all (by decide)) rfl fun _ _ ↦ rfl
  · rw [if_neg hremoved]
    refine finds_roleButton.replace_kept hb ?_ ?_ ?_
    · rintro front hname hopening _ more heq rfl
      cases b with
      | bare => exact hb.ends.elim
      | braced => cases hopening
      | quoted name value =>
        obtain rfl : value = "button" := Text.eq_of_append_cons hb.ends (by decide) heq
        refine hclear.1 (ne_of_endsBeyond hname ?_) rfl
        rintro rfl
        exact hremoved rfl
    · rintro u v hvalue _ more heq rfl
      cases b with
      | bare => exact hb.ends.elim
      | quoted name value =>
        have heq : value = u ++ (("role" : Text) ++ '=' :: '"' :: v) := hvalue
        refine absurd ?_ hb.ends
        rw [heq]
        simp
      | braced name expression =>
        exact absurd (finds_roleButton.holdsAttribute (.inl rfl) hvalue) hb.ends.2
    · rintro - - _ more rfl rfl
      obtain ⟨c, hc, hcases⟩ := hrest
      obtain rfl : 'b' = c := Option.some.inj hc
      exact absurd hcases (by decide)

theorem eq_zero_of_balanced {more : Text} (ht : Text.Balanced t)
    (h : t ++ '\x7d' :: rest = '0' :: '\x7d' :: more) : t = ['0'] := by
  match t, ht, h with
  | [], _, h => exact absurd (List.cons.inj h).1 (by decide)
  | [_], _, h =>
    obtain ⟨rfl, -⟩ := List.cons.inj h
    rfl
  | c :: d :: t, ht, h =>
    obtain ⟨rfl, hrest⟩ := List.cons.inj h
    obtain ⟨rfl, -⟩ := List.cons.inj hrest
    cases ht

theorem exists_eq_of_zero {more : Text} (h : t ++ '"' :: rest = '0' :: '\x7d' :: more) :
    ∃ v, t = '0' :: '\x7d' :: v := by
  match t, h with
  | [], h => exact absurd (List.cons.inj h).1 (by decide)
  | [_], h => exact absurd (List.cons.inj (List.cons.inj h).2).1 (by decide)
  | c :: d :: t, h =>
    obtain ⟨rfl, hrest⟩ := List.cons.inj h
    obtain ⟨rfl, -⟩ := List.cons.inj hrest
    exact ⟨t, rfl⟩

theorem erase_tabStop (hb : b.Written) (hclear : Clear b) (rest : Text) :
    tabStop.erase (' ' :: (b.text ++ rest)) =
      (if isTabStop b then [] else ' ' :: b.text) ++ tabStop.erase rest := by
  by_cases hremoved : isTabStop b = true
  · rw [if_pos hremoved]
    cases b with
    | bare | quoted => cases hremoved
    | braced name expression =>
      obtain ⟨hname, hvalue⟩ := Bool.and_eq_true_iff.1 hremoved
      obtain rfl : name = "tabIndex" := of_decide_eq_true hname
      obtain rfl : expression = "0" := of_decide_eq_true hvalue
      have htext : ' ' :: ((Attribute.braced "tabIndex" "0").text ++ rest) =
          [' '] ++ (("tabIndex" : Text) ++ '=' :: '\x7b' :: ("0" ++ '\x7d' :: rest)) := rfl
      rw [htext]
      exact finds_tabStop.replace_found (Text.forall_mem_of_all (by decide)) rfl fun _ _ ↦ rfl
  · rw [if_neg hremoved]
    refine finds_tabStop.replace_kept hb ?_ ?_ ?_
    · rintro front hname hopening _ more heq rfl
      cases b with
      | bare | quoted => cases hopening
      | braced name expression =>
        obtain rfl : expression = "0" := eq_zero_of_balanced hb.ends.1 heq
        refine hclear.2.2 (ne_of_endsBeyond hname ?_) rfl
        rintro rfl
        exact hremoved rfl
    · rintro u v hvalue _ more heq rfl
      cases b with
      | bare => exact hb.ends.elim
      | quoted name value =>
        obtain ⟨v, rfl⟩ := exists_eq_of_zero heq
        exact absurd ⟨u, v, (hvalue.trans (by simp)).symm⟩ hclear.2.2.2.1
      | braced name expression =>
        exact absurd (finds_tabStop.holdsAttribute (.inr rfl) hvalue) hb.ends.2
    · intro hopening
      cases b <;> cases hopening

/-- An attribute as the pattern for class attributes leaves it: it looks at the end of the name only. -/
def reclassed : Attribute → Attribute
  | .quoted name value =>
    .quoted name (if ("className" : Text) <:+ name then cleanClasses value else value)
  | b => b

def rewriteClasses (classes : Text) : Text :=
  (Attribute.quoted "className" (cleanClasses classes)).text

theorem cleanClassAttributes_eq (line : Text) :
    cleanClassAttributes line = classAttribute.replace rewriteClasses line := rfl

theorem text_quoted_append (name value t : Text) :
    (Attribute.quoted name value).text ++ t = name ++ '=' :: '"' :: (value ++ '"' :: t) := by
  simp [Attribute.text]

theorem after_classAttribute {c d : Cursor} (hd : d ∈ classAttribute.ends c) :
    c.after = "className" ++ '=' :: '"' :: (d.captured ++ '"' :: d.after) ∧ '"' ∉ d.captured := by
  have hparts : classAttribute =
      chain ([literal "className=\""] ++ capture (many (· ≠ '"')) :: [literal "\""]) := rfl
  rw [hparts] at hd
  obtain ⟨word, closed, heq, ⟨found, _, rfl, hfound, rfl⟩, hcaptured, ⟨mark, _, rfl, hmark, rfl⟩⟩ :=
    takes_captured rfl hd
  rw [takes_literal.1 hfound, takes_literal.1 hmark] at heq
  exact ⟨heq, fun hmem ↦ by simpa using hcaptured _ hmem⟩

theorem captured_classAttribute {value : Text} {d : Cursor} (hvalue : '"' ∉ value)
    (hd : d ∈ classAttribute.ends (.start ("className" ++ '=' :: '"' :: (value ++ '"' :: rest)))) :
    d.captured = value := by
  obtain ⟨heq, hcaptured⟩ := after_classAttribute hd
  have hrest : value ++ '"' :: rest = d.captured ++ '"' :: d.after := by
    exact @List.append_cancel_left _ ("className=\"" : Text) _ _ heq
  exact (Text.eq_of_append_cons hvalue hcaptured hrest).symm

theorem replace_classAttribute_of_suffix {front value : Text} (hfront : '=' ∉ front)
    (hvalue : '"' ∉ value) :
    classAttribute.replace f (' ' :: ((Attribute.quoted (front ++ "className") value).text ++ rest)) =
      ' ' :: (front ++ (f value ++ classAttribute.replace f rest)) := by
  have hfront' : '=' ∉ ' ' :: front := by simpa using hfront
  have htext : ' ' :: ((Attribute.quoted (front ++ "className") value).text ++ rest) =
      (' ' :: front) ++ ("className" ++ '=' :: '"' :: (value ++ '"' :: rest)) := by
    simp [Attribute.text]
  rw [htext]
  exact finds_classAttribute.replace_behind (fun _ ↦ rfl) hfront' hvalue
    fun d hd ↦ congrArg f (captured_classAttribute hvalue hd)

theorem replace_classAttribute (hb : b.Written) (hclear : Clear b) (rest : Text) :
    classAttribute.replace rewriteClasses (' ' :: (b.text ++ rest)) =
      ' ' :: ((reclassed b).text ++ classAttribute.replace rewriteClasses rest) := by
  by_cases hsuffix : ("className" : Text) <:+ b.name ∧ b.opening = '"'
  · obtain ⟨⟨front, hname⟩, hopening⟩ := hsuffix
    cases b with
    | bare => exact hb.ends.elim
    | braced => cases hopening
    | quoted name value =>
      obtain rfl : front ++ "className" = name := hname
      have hfront : '=' ∉ front := fun hmem ↦
        Attribute.not_mem_of_isLabelChar hb.isLabelChar_of_mem (c := '=') (by decide)
          (List.mem_append_left _ hmem)
      have hends : ("className" : Text) <:+ front ++ "className" := List.suffix_append front _
      have hreclassed : reclassed (.quoted (front ++ "className") value) =
          .quoted (front ++ "className") (cleanClasses value) := by
        rw [reclassed, if_pos hends]
      rw [replace_classAttribute_of_suffix hfront hb.ends, hreclassed, rewriteClasses,
        text_quoted_append, text_quoted_append, List.append_assoc]
  · have hsame : reclassed b = b := by
      cases b with
      | bare | braced => rfl
      | quoted name value =>
        have hname : ¬ ("className" : Text) <:+ name := fun h ↦ hsuffix ⟨h, rfl⟩
        rw [reclassed, if_neg hname]
    rw [hsame]
    refine finds_classAttribute.replace_kept hb ?_ ?_ ?_
    · intro front hname hopening
      exact absurd ⟨⟨front, hname.symm⟩, hopening.symm⟩ hsuffix
    · intro u v hvalue
      cases b with
      | bare => exact hb.ends.elim
      | quoted name value =>
        have heq : value = u ++ (("className" : Text) ++ '=' :: '"' :: v) := hvalue
        refine absurd ?_ hb.ends
        rw [heq]
        simp
      | braced name expression =>
        exact absurd (finds_classAttribute.holdsAttribute (.inl rfl) hvalue) hb.ends.2
    · rintro hclosing ⟨u, hu⟩
      cases b with
      | bare => exact hb.ends.elim
      | quoted name value => exact absurd ⟨u, hu.symm⟩ (hclear.2.2.1 fun h ↦ hsuffix ⟨h, rfl⟩)
      | braced => cases hclosing

def attributesText (attributes : List Attribute) : Text := attributes.flatMap fun b ↦ ' ' :: b.text

structure TagLine where
  indentation : Text
  tag : Text
  attributes : List Attribute
  closing : Text
  isBlank_of_mem : ∀ c ∈ indentation, Text.isBlank c = true
  isBlank_tag : ∀ c ∈ tag, Text.isBlank c = false ∧ c ≠ '='
  written : ∀ b ∈ attributes, b.Written
  closing_eq : ∃ spaces, (∀ c ∈ spaces, c = ' ') ∧
    (closing = spaces ++ ['>'] ∨ closing = spaces ++ ['/', '>'])

namespace TagLine

def textWith (line : TagLine) (attributes : Text) : Text :=
  line.indentation ++ '<' :: (line.tag ++ (attributes ++ line.closing))

theorem textWith_eq (line : TagLine) (t : Text) :
    line.textWith t = (line.indentation ++ '<' :: line.tag) ++ (t ++ line.closing) := by
  simp [textWith]

def text (line : TagLine) : Text := line.textWith (attributesText line.attributes)

theorem follows_closing (line : TagLine) : Follows line.closing := by
  obtain ⟨spaces, hspaces, hclosing⟩ := line.closing_eq
  cases spaces with
  | nil => rcases hclosing with h | h <;> simp [Follows, h]
  | cons c spaces =>
    obtain rfl := hspaces c List.mem_cons_self
    rcases hclosing with h | h <;> simp [Follows, h]

theorem follows_append (line : TagLine) (attributes : List Attribute) :
    Follows (attributesText attributes ++ line.closing) := by
  cases attributes with
  | nil => exact line.follows_closing
  | cons b attributes => exact ⟨' ', rfl, .inl rfl⟩

theorem equals_not_mem_closing (line : TagLine) : '=' ∉ line.closing := by
  obtain ⟨spaces, hspaces, hclosing⟩ := line.closing_eq
  have hspaces' : '=' ∉ spaces := fun hmem ↦ absurd (hspaces '=' hmem) (by decide)
  rcases hclosing with h | h <;> simp [h, hspaces']

end TagLine

theorem TagLine.equals_not_mem_head (line : TagLine) : '=' ∉ line.indentation ++ '<' :: line.tag := by
  have hindentation : '=' ∉ line.indentation :=
    Text.not_mem_of_blank line.isBlank_of_mem (by decide)
  have htag : '=' ∉ line.tag := fun hmem ↦ (line.isBlank_tag '=' hmem).2 rfl
  simp [hindentation, htag]

theorem TagLine.isPadding_getLast_head (line : TagLine) :
    ∀ c ∈ (line.indentation ++ '<' :: line.tag).getLast?, Text.isPadding c = false := by
  intro c hc
  rw [← Bool.not_eq_true]
  intro hpadding
  obtain hnil | ⟨tag, d, htag⟩ := List.eq_nil_or_concat line.tag
  · obtain rfl : '<' = c := by simpa [hnil] using hc
    exact absurd hpadding (by decide)
  · have hsplit : line.indentation ++ '<' :: line.tag =
        (line.indentation ++ '<' :: tag) ++ [d] := by simp [htag]
    rw [hsplit, List.getLast?_concat] at hc
    obtain rfl : d = c := Option.some.inj hc
    have hblank := (line.isBlank_tag d (by simp [htag])).1
    rw [Text.isBlank_of_isPadding hpadding] at hblank
    cases hblank

theorem Finds.replace_line {a : Pattern} {p : Char → Bool} {word : Text} {opening closing : Char}
    {IsValue : Text → Prop} (h : Finds a p word opening closing IsValue) (line : TagLine)
    {attributes : List Attribute} {g : Attribute → Text}
    (hstep : ∀ b ∈ attributes, ∀ rest, Follows rest →
      a.replace f (' ' :: (b.text ++ rest)) = g b ++ a.replace f rest) :
    a.replace f (line.textWith (attributesText attributes)) =
      line.textWith (attributes.flatMap g) := by
  have hclosing : a.replace f line.closing = line.closing := by
    refine replace_eq_of_not_opens h.isPlain f fun w hw _ ↦ ?_
    rw [← Bool.not_eq_true, h.opens_iff]
    rintro ⟨front, value, rest, rfl, -⟩
    exact line.equals_not_mem_closing (hw.subset (by simp))
  have hattributes : a.replace f (attributesText attributes ++ line.closing) =
      attributes.flatMap g ++ line.closing := by
    induction attributes with
    | nil => exact hclosing
    | cons b attributes ih =>
      have htext : attributesText (b :: attributes) ++ line.closing =
          ' ' :: (b.text ++ (attributesText attributes ++ line.closing)) := by
        simp [attributesText]
      rw [htext, hstep b List.mem_cons_self _ (line.follows_append attributes),
        ih fun b hb ↦ hstep b (List.mem_cons_of_mem _ hb), List.flatMap_cons, List.append_assoc]
  have hfollows : ∀ c ∈ (attributesText attributes ++ line.closing).head?,
      isLabelChar c = false ∧ c ≠ '=' := by
    intro c hc
    obtain ⟨d, hd, hcases⟩ := line.follows_append attributes
    obtain rfl : d = c := Option.some.inj (hd.symm.trans hc)
    rcases hcases with rfl | rfl | rfl <;> decide
  rw [line.textWith_eq, line.textWith_eq,
    h.replace_plain line.equals_not_mem_head line.isPadding_getLast_head hfollows, hattributes]

theorem Finds.erase_line {a : Pattern} {p : Char → Bool} {word : Text} {opening closing : Char}
    {IsValue : Text → Prop} (h : Finds a p word opening closing IsValue) (line : TagLine)
    {attributes : List Attribute} {removes : Attribute → Bool}
    (hstep : ∀ b ∈ attributes, ∀ rest, Follows rest → a.erase (' ' :: (b.text ++ rest)) =
      (if removes b then [] else ' ' :: b.text) ++ a.erase rest) :
    a.erase (line.textWith (attributesText attributes)) =
      line.textWith (attributesText (attributes.filter (!removes ·))) := by
  rw [erase, h.replace_line line hstep]
  congr 1
  clear hstep
  induction attributes with
  | nil => rfl
  | cons b attributes ih =>
    rw [List.flatMap_cons, ih]
    by_cases hb : removes b = true <;> simp [attributesText, hb]

theorem eraseAttributes_text (line : TagLine) (hclear : ∀ b ∈ line.attributes, Clear b) :
    eraseAttributes line.text =
      line.textWith (attributesText (line.attributes.filter (!isCanvas ·))) := by
  have hhandler : ∀ b ∈ line.attributes, b.Written ∧ Clear b := fun b hb ↦
    ⟨line.written b hb, hclear b hb⟩
  have hrole : ∀ b ∈ line.attributes.filter (!isHandler ·), b.Written ∧ Clear b :=
    fun b hb ↦ hhandler b (List.mem_filter.1 hb).1
  have htab : ∀ b ∈ (line.attributes.filter (!isHandler ·)).filter (!isRoleButton ·),
      b.Written ∧ Clear b := fun b hb ↦ hrole b (List.mem_filter.1 hb).1
  rw [eraseAttributes_eq, TagLine.text,
    finds_handler.erase_line line fun b hb rest _ ↦
      erase_handler (hhandler b hb).1 (hhandler b hb).2 rest,
    finds_roleButton.erase_line line fun b hb rest hrest ↦
      erase_roleButton (hrole b hb).1 (hrole b hb).2 hrest,
    finds_tabStop.erase_line line fun b hb rest _ ↦ erase_tabStop (htab b hb).1 (htab b hb).2 rest,
    List.filter_filter, List.filter_filter]
  congr 2
  refine List.filter_congr fun b _ ↦ ?_
  simp only [isCanvas, Bool.not_or]
  ac_rfl

theorem collapseSpaces_append_cons {c : Char} (hc : c ≠ ' ') (u t : Text) :
    collapseSpaces (u ++ c :: t) = collapseSpaces u ++ c :: collapseSpaces t := by
  have havoids : spaceRun.avoids c = true := by
    simp [spaceRun, chain, literal, run, avoids, hc]
  have hopens : spaceRun.opens (c :: t) = false := by
    rw [← Bool.not_eq_true, opens_iff]
    rintro ⟨taken, rest, heq, space, _, rfl, hspace, -⟩
    rw [takes_literal.1 hspace] at heq
    exact hc (List.cons.inj heq).1
  rw [collapseSpaces, replace_append_cons havoids, replace_cons (isPlain_of_avoids havoids) _ hopens]
  rfl

theorem collapseSpaces_quoted (u name value rest : Text) :
    collapseSpaces (u ++ ' ' :: ((Attribute.quoted name value).text ++ rest)) =
      collapseSpaces (u ++ ' ' :: (name ++ ['='])) ++
        '"' :: (collapseSpaces value ++ '"' :: collapseSpaces rest) := by
  rw [← collapseSpaces_append_cons (by decide), ← collapseSpaces_append_cons (by decide),
    text_quoted_append]
  simp

theorem attributesText_cons_append (b : Attribute) (attributes : List Attribute) (rest : Text) :
    attributesText (b :: attributes) ++ rest =
      ' ' :: (b.text ++ (attributesText attributes ++ rest)) := by
  rw [attributesText, List.flatMap_cons, List.append_assoc, List.cons_append]
  rfl

theorem collapseSpaces_reclassed {attributes : List Attribute} (hclear : ∀ b ∈ attributes, Clear b)
    (u rest : Text) :
    collapseSpaces (u ++ (attributesText (attributes.map reclassed) ++ rest)) =
      collapseSpaces (u ++ (attributesText (attributes.map cleaned) ++ rest)) := by
  induction attributes generalizing u with
  | nil => rfl
  | cons b attributes ih =>
    have hshift : ∀ (b : Attribute) t, u ++ ' ' :: (b.text ++ t) = (u ++ ' ' :: b.text) ++ t := by
      intro b t
      rw [List.append_assoc, List.cons_append]
    rw [List.map_cons, List.map_cons, attributesText_cons_append, attributesText_cons_append, hshift,
      ih fun b hb ↦ hclear b (List.mem_cons_of_mem _ hb), ← hshift]
    cases b with
    | bare | braced => rfl
    | quoted name value =>
      have hvalue :
          collapseSpaces (if ("className" : Text) <:+ name then cleanClasses value else value) =
            collapseSpaces (if name = "className" then cleanClasses value else value) := by
        by_cases hsuffix : ("className" : Text) <:+ name
        · obtain ⟨front, hname⟩ := hsuffix
          by_cases hclass : name = "className"
          · rw [if_pos ⟨front, hname⟩, if_pos hclass]
          · rw [if_pos ⟨front, hname⟩, if_neg hclass]
            exact (hclear _ List.mem_cons_self).2.1 (ne_of_endsBeyond hname.symm hclass)
        · have hclass : name ≠ "className" := by
            rintro rfl
            exact hsuffix (List.suffix_refl _)
          rw [if_neg hsuffix, if_neg hclass]
      rw [reclassed, cleaned, collapseSpaces_quoted, collapseSpaces_quoted, hvalue]

theorem tidy_textWith (line : TagLine) (t : Text) :
    tidy (line.textWith t) =
      line.indentation ++ collapseSpaces ('<' :: (line.tag ++ (t ++ line.closing))) := by
  obtain ⟨front, hclosing⟩ : ∃ front, line.closing = front ++ ['>'] := by
    obtain ⟨spaces, -, h | h⟩ := line.closing_eq
    · exact ⟨spaces, h⟩
    · exact ⟨spaces ++ ['/'], by simp [h]⟩
  have hcollapse : collapseSpaces ('<' :: (line.tag ++ (t ++ line.closing))) =
      collapseSpaces ('<' :: (line.tag ++ (t ++ front))) ++ ['>'] := by
    rw [hclosing, ← List.append_assoc t, ← List.append_assoc line.tag, ← List.cons_append]
    exact collapseSpaces_append_cons (by decide) _ []
  have htrim : Text.trimEnd (collapseSpaces ('<' :: (line.tag ++ (t ++ line.closing)))) =
      collapseSpaces ('<' :: (line.tag ++ (t ++ line.closing))) := by
    rw [hcollapse, Text.trimEnd_append_cons (by decide)]
    rfl
  have hstart : Text.trimStart (line.textWith t) = '<' :: (line.tag ++ (t ++ line.closing)) := by
    rw [TagLine.textWith, Text.trimStart_append_of_nil]
    · exact List.dropWhile_cons_of_neg (by decide)
    · rw [Text.trimStart_eq_nil_iff, Text.allBlank, List.all_eq_true]
      exact line.isBlank_of_mem
  have hindentation : (line.textWith t).takeWhile Text.isBlank = line.indentation := by
    rw [TagLine.textWith, List.takeWhile_append_of_pos line.isBlank_of_mem,
      List.takeWhile_cons_of_neg (by decide), List.append_nil]
  rw [tidy, hstart, htrim, hindentation]
  split
  · next hnil => simp [hcollapse] at hnil
  · rfl

/-- The line without the attributes that are there for the canvas only, and without canvas classes. -/
def TagLine.stripped (line : TagLine) : Text :=
  line.indentation ++ collapseSpaces ('<' :: (line.tag ++
    (attributesText ((line.attributes.filter (!isCanvas ·)).map cleaned) ++ line.closing)))

theorem cleanClassAttributes_textWith (line : TagLine) {attributes : List Attribute}
    (hattributes : ∀ b ∈ attributes, b.Written ∧ Clear b) :
    cleanClassAttributes (line.textWith (attributesText attributes)) =
      line.textWith (attributesText (attributes.map reclassed)) := by
  have hstep : ∀ b ∈ attributes, ∀ rest, Follows rest →
      classAttribute.replace rewriteClasses (' ' :: (b.text ++ rest)) =
        ' ' :: (reclassed b).text ++ classAttribute.replace rewriteClasses rest := fun b hb rest _ ↦
    replace_classAttribute (hattributes b hb).1 (hattributes b hb).2 rest
  rw [cleanClassAttributes_eq, finds_classAttribute.replace_line line hstep, attributesText,
    List.flatMap_map]

theorem TagLine.allBlank_text (line : TagLine) : Text.allBlank line.text = false := by
  rw [← Bool.not_eq_true, Text.allBlank, List.all_eq_true]
  intro hall
  exact absurd (hall '<' (by simp [TagLine.text, TagLine.textWith])) (by decide)

theorem stripAffordances_text (line : TagLine) (hclear : ∀ b ∈ line.attributes, Clear b) :
    stripAffordances line.text = line.stripped := by
  have hkept : ∀ b ∈ line.attributes.filter (!isCanvas ·), b.Written ∧ Clear b := fun b hb ↦
    ⟨line.written b (List.mem_filter.1 hb).1, hclear b (List.mem_filter.1 hb).1⟩
  rw [stripAffordances, if_neg (by simp [line.allBlank_text]), eraseAttributes_text line hclear,
    cleanClassAttributes_textWith line hkept, tidy_textWith, TagLine.stripped]
  exact congrArg (line.indentation ++ ·)
    (collapseSpaces_reclassed (fun b hb ↦ (hkept b hb).2) ('<' :: line.tag) line.closing)

section

variable {p : Char → Bool}

theorem filter_collapseSpaces (hp : p ' ' = false) (t : Text) :
    (collapseSpaces t).filter p = t.filter p := by
  refine filter_replace ?_ (fun _ ↦ by simp [hp]) t
  rintro last _ rest ⟨space, _, rfl, hspace, more, _, rfl, hmore, rfl⟩
  rw [takes_literal.1 hspace, List.filter_eq_nil_iff]
  have hall := (takes_run.1 hmore).2
  intro c hc
  have hc' : c = ' ' := by
    rcases List.mem_append.1 hc with hc | hc
    · simpa using hc
    · exact of_decide_eq_true (hall c (by simpa using hc))
  simp [hc', hp]

theorem filter_trim (hp : ∀ c, Text.isBlank c = true → p c = false) (t : Text) :
    (Text.trim t).filter p = t.filter p := by
  have hblank : ∀ {u : Text}, (∀ c ∈ u, Text.isBlank c = true) → u.filter p = [] := by
    intro u hu
    rw [List.filter_eq_nil_iff]
    intro c hc
    simp [hp c (hu c hc)]
  obtain ⟨front, hfront, hfrontBlank⟩ := Text.exists_eq_append_trimStart t
  obtain ⟨back, hback, hbackBlank⟩ := Text.exists_eq_trimEnd_append (Text.trimStart t)
  have hend := congrArg (List.filter p) hback
  have hstart := congrArg (List.filter p) hfront
  rw [List.filter_append, hblank hbackBlank, List.append_nil] at hend
  rw [List.filter_append, hblank hfrontBlank, List.nil_append] at hstart
  exact (hstart.trans hend).symm

theorem filter_cleanClasses (hclass : ∀ c, isClassChar c = true → p c = false)
    (hp : ∀ c, Text.isBlank c = true → p c = false) (classes : Text) :
    (cleanClasses classes).filter p = classes.filter p := by
  rw [cleanClasses, filter_trim hp, filter_collapseSpaces (hp ' ' (by decide))]
  refine filter_replace ?_ (fun _ ↦ rfl) classes
  rintro last _ rest ⟨_, _, rfl, ⟨rfl, -⟩, word, _, rfl, hword, _, _, rfl, ⟨rfl, -⟩, rfl⟩
  have hall : ∀ w ∈ canvasClasses, w.all (fun c ↦ decide (isClassChar c = true)) = true := by decide
  rw [List.filter_eq_nil_iff]
  intro c hc
  simp [hclass c (Text.forall_mem_of_all (hall word (takes_oneOf.1 hword)) c (by simpa using hc))]

theorem filter_cleaned (hclass : ∀ c, isClassChar c = true → p c = false)
    (hp : ∀ c, Text.isBlank c = true → p c = false) (b : Attribute) :
    (cleaned b).text.filter p = b.text.filter p := by
  cases b with
  | bare | braced => rfl
  | quoted name value =>
    by_cases hname : name = "className"
    · have hvalue := filter_cleanClasses hclass hp value
      rw [cleaned, if_pos hname]
      simp only [Attribute.text, List.filter_append, List.filter_cons, hvalue]
    · rw [cleaned, if_neg hname]

theorem TagLine.filter_stripped (line : TagLine) (hclass : ∀ c, isClassChar c = true → p c = false)
    (hp : ∀ c, Text.isBlank c = true → p c = false) :
    line.stripped.filter p =
      (line.textWith (attributesText (line.attributes.filter (!isCanvas ·)))).filter p := by
  have hattributes : (attributesText ((line.attributes.filter (!isCanvas ·)).map cleaned)).filter p =
      (attributesText (line.attributes.filter (!isCanvas ·))).filter p := by
    rw [attributesText, attributesText, List.flatMap_map, List.filter_flatMap, List.filter_flatMap]
    refine congrArg (List.flatMap · _) (funext fun b ↦ ?_)
    rw [List.filter_cons, List.filter_cons, filter_cleaned hclass hp]
  rw [TagLine.stripped, List.filter_append, filter_collapseSpaces (hp ' ' (by decide)),
    TagLine.textWith, List.filter_append, List.filter_cons, List.filter_cons, List.filter_append,
    List.filter_append, List.filter_append, List.filter_append, hattributes]

end

theorem balanced_of_isCanvas (hb : b.Written) (hcanvas : isCanvas b = true) :
    Text.Balanced (' ' :: b.text) := by
  cases b with
  | bare => cases hcanvas
  | quoted name value =>
    obtain ⟨rfl, rfl⟩ := isCanvas_quoted.1 hcanvas
    decide
  | braced name expression =>
    have hplain : Text.Balanced (' ' :: (name ++ ['='])) := by
      refine (Text.balanced_iff_of_filter_eq (v := []) ?_).2 rfl
      refine List.filter_eq_nil_iff.2 fun c hc ↦ ?_
      rw [Bool.not_eq_true]
      refine Text.isBrace_eq_false (p := fun c ↦ isLabelChar c || c = ' ' || c = '=') (by decide)
        (by decide) ?_
      rcases List.mem_cons.1 hc with rfl | hc
      · decide
      · rcases List.mem_append.1 hc with hc | hc
        · simp [hb.isLabelChar_of_mem c hc]
        · simp [List.mem_singleton.1 hc]
    have htext : ' ' :: (Attribute.braced name expression).text =
        (' ' :: (name ++ ['='])) ++ '\x7b' :: (expression ++ ['\x7d']) := by
      simp [Attribute.text]
    have hinside : Text.depthAfter 1 (expression ++ ['\x7d']) = some 0 := by
      rw [hb.ends.1.depthAfter_append]
      rfl
    rw [htext, Text.Balanced, hplain.depthAfter_append]
    exact hinside

theorem TagLine.balanced_stripped_iff (line : TagLine) :
    Text.Balanced line.stripped ↔ Text.Balanced line.text := by
  have hattributes : ∀ (attributes : List Attribute), (∀ b ∈ attributes, b.Written) →
      ∀ (depth : Nat) (rest : Text),
        Text.depthAfter depth (attributesText (attributes.filter (!isCanvas ·)) ++ rest) =
          Text.depthAfter depth (attributesText attributes ++ rest) := by
    intro attributes hwritten
    induction attributes with
    | nil => exact fun _ _ ↦ rfl
    | cons b attributes ih =>
      intro depth rest
      have ih := ih fun b hb ↦ hwritten b (List.mem_cons_of_mem _ hb)
      by_cases hcanvas : isCanvas b = true
      · have hbalanced := balanced_of_isCanvas (hwritten b List.mem_cons_self) hcanvas
        rw [List.filter_cons_of_neg (by simp [hcanvas]), ih, attributesText_cons_append,
          ← List.cons_append, hbalanced.depthAfter_append]
      · rw [List.filter_cons_of_pos (by simp [hcanvas]), attributesText_cons_append,
          attributesText_cons_append, ← List.cons_append, ← List.cons_append]
        exact Text.depthAfter_append_congr (fun depth ↦ ih depth rest) _
  have hclass : ∀ c, isClassChar c = true → Text.isBrace c = false := fun _ hc ↦
    Text.isBrace_eq_false (by decide) (by decide) hc
  have hblank : ∀ c, Text.isBlank c = true → Text.isBrace c = false := fun _ hc ↦
    Text.isBrace_eq_false (by decide) (by decide) hc
  rw [Text.balanced_iff_of_filter_eq (line.filter_stripped hclass hblank)]
  have hline := fun depth ↦ hattributes line.attributes line.written depth line.closing
  rw [Text.Balanced, Text.Balanced, TagLine.text, TagLine.textWith_eq, TagLine.textWith_eq,
    Text.depthAfter_append_congr hline]

end CanvasLift.Canvas
