import CanvasLift.Proofs.Component.Indicator
import Mathlib.Data.List.Chain

/-!
Imports as they may be written, with blank characters wherever the language allows them. The main
statements are that the check for completeness recognizes such an import where the tokens of its clause
are on one line, with blank characters around them, and nowhere else.
-/

namespace CanvasLift.Component.Completeness

/-- The punctuation of ASCII without the two signs that a name may have. -/
def punctuation : Text := "!\"#%&'()*+,-./:;<=>?@[\\]^`\x7b|\x7d~"

def isNameChar (c : Char) : Bool := !Text.isBlank c && c ∉ punctuation

structure Name where
  text : Text
  ne_nil : text ≠ []
  isNameChar_of_mem : ∀ c ∈ text, isNameChar c = true
  ne_import : text ≠ "import"

inductive Clause
  | default (name : Name)
  | whole (name : Name)
  | listed (names : List Name) (trailingComma : Bool)

def Clause.tokens : Clause → List Text
  | default name => [name.text]
  | whole name => [['*'], "as", name.text]
  | listed names trailingComma =>
    let entries : List Text := names.flatMap fun name ↦ [name.text, [',']]
    ['\x7b'] :: ((if trailingComma then entries else entries.dropLast) ++ [['\x7d']])

structure Spaced where
  gap : Text
  token : Text
  blank_gap : gap.all Text.isBlank = true

def Parted (a b : Spaced) : Prop :=
  a.token.all isNameChar = true → b.token.all isNameChar = true → b.gap ≠ []

instance : DecidableRel Parted := fun _ _ ↦ inferInstanceAs (Decidable (_ → _ → _))

def render (items : List Spaced) : Text := items.flatMap fun s ↦ s.gap ++ s.token

structure Declaration where
  clause : Clause
  first : Spaced
  others : List Spaced
  beforeFrom : Text
  beforeModule : Text
  quote : Char
  module : Text
  tokens_eq : (first :: others).map Spaced.token = clause.tokens
  blank_beforeFrom : beforeFrom.all Text.isBlank = true
  blank_beforeModule : beforeModule.all Text.isBlank = true
  parted : List.IsChain Parted (⟨[], "import", rfl⟩ :: first ::
    (others ++ [⟨beforeFrom, "from", blank_beforeFrom⟩]))
  isQuote_quote : isQuote quote = true
  module_ne_nil : module ≠ []
  unquoted_module : module.all (!isQuote ·) = true

theorem Spaced.isBlank_of_mem (s : Spaced) : ∀ c ∈ s.gap, Text.isBlank c = true :=
  List.all_eq_true.1 s.blank_gap

namespace Declaration

variable (d : Declaration)

theorem isBlank_beforeFrom : ∀ c ∈ d.beforeFrom, Text.isBlank c = true :=
  List.all_eq_true.1 d.blank_beforeFrom

theorem isBlank_beforeModule : ∀ c ∈ d.beforeModule, Text.isBlank c = true :=
  List.all_eq_true.1 d.blank_beforeModule

theorem isQuote_module : ∀ c ∈ d.module, isQuote c = false := by
  simpa using List.all_eq_true.1 d.unquoted_module

def head : Text :=
  "import" ++ (render (d.first :: d.others) ++ (d.beforeFrom ++ ("from" ++ d.beforeModule)))

def text : Text := d.head ++ d.quote :: (d.module ++ [d.quote])

def StandsIn (content : Text) : Prop :=
  ∃ front indent back, content = front ++ (indent ++ (d.text ++ back)) ∧
    front.getLast?.all (· = '\n') = true ∧ ∀ c ∈ indent, Text.isBlank c = true

/-- The tokens of the clause are on one line, with blank characters around them and before the
module. -/
structure OnOneLine : Prop where
  first : d.first.gap ≠ []
  others : ∀ s ∈ d.others, '\n' ∉ s.gap
  beforeFrom : d.beforeFrom ≠ []
  beforeModule : d.beforeModule ≠ []

end Declaration

def marks : List Char := [',', '*', '\x7b', '\x7d']

/-- The tokens of a clause: marks, and words other than the one that starts an import. -/
def IsToken (t : Text) : Prop :=
  (∃ c ∈ marks, t = [c]) ∨ t ≠ [] ∧ (∀ c ∈ t, isNameChar c = true) ∧ t ≠ "import"

theorem Name.isToken (name : Name) : IsToken name.text :=
  .inr ⟨name.ne_nil, name.isNameChar_of_mem, name.ne_import⟩

theorem isToken_mark {c : Char} (h : c ∈ marks) : IsToken [c] :=
  .inl ⟨c, h, rfl⟩

theorem Clause.isToken_of_mem {clause : Clause} {t : Text} (h : t ∈ clause.tokens) : IsToken t := by
  cases clause with
  | default name =>
    obtain rfl := List.mem_singleton.1 h
    exact name.isToken
  | whole name =>
    simp only [tokens, List.mem_cons, List.not_mem_nil, or_false] at h
    obtain rfl | rfl | rfl := h
    · exact isToken_mark (by decide)
    · exact .inr ⟨by decide, Text.forall_mem_of_all (by decide), by decide⟩
    · exact name.isToken
  | listed names trailingComma =>
    have hentry : ∀ t ∈ names.flatMap fun name ↦ [name.text, [',']], IsToken t := by
      intro t ht
      obtain ⟨name, -, ht⟩ := List.mem_flatMap.1 ht
      simp only [List.mem_cons, List.not_mem_nil, or_false] at ht
      obtain rfl | rfl := ht
      · exact name.isToken
      · exact isToken_mark (by decide)
    simp only [tokens, List.mem_cons, List.mem_append, List.not_mem_nil, or_false] at h
    obtain rfl | h | rfl := h
    · exact isToken_mark (by decide)
    · split at h
      · exact hentry t h
      · exact hentry t ((List.dropLast_sublist _).subset h)
    · exact isToken_mark (by decide)

theorem IsToken.mem {t : Text} (h : IsToken t) {c : Char} (hc : c ∈ t) :
    c ∈ marks ∨ isNameChar c = true := by
  obtain ⟨d, hd, rfl⟩ | ⟨-, hall, -⟩ := h
  · rw [List.mem_singleton.1 hc]
    exact .inl hd
  · exact .inr (hall c hc)

theorem IsToken.ne_nil {t : Text} (h : IsToken t) : t ≠ [] := by
  obtain ⟨d, -, rfl⟩ | ⟨hne, -⟩ := h
  · exact List.cons_ne_nil _ _
  · exact hne

theorem isBlank_of_isNameChar {c : Char} (h : isNameChar c = true) : Text.isBlank c = false := by
  simpa using (Bool.and_eq_true_iff.1 h).1

theorem IsToken.isBlank_of_mem {t : Text} (h : IsToken t) {c : Char} (hc : c ∈ t) :
    Text.isBlank c = false := by
  have hmarks : ∀ c ∈ marks, Text.isBlank c = false := Text.forall_mem_of_all (by decide)
  obtain hmark | hname := h.mem hc
  · exact hmarks c hmark
  · exact isBlank_of_isNameChar hname

theorem IsToken.head_append {t : Text} (h : IsToken t) (u : Text) :
    ∃ c ∈ (t ++ u).head?, Text.isBlank c = false := by
  obtain ⟨c, rest, rfl⟩ := List.exists_cons_of_ne_nil h.ne_nil
  exact ⟨c, rfl, h.isBlank_of_mem List.mem_cons_self⟩

/-- The characters of the signs of a full interface that no import has outside its module. -/
def foreign : List Char := ['@', '-', '<', '=', '"', '\'']

theorem IsToken.not_mem_foreign {t : Text} (h : IsToken t) {c : Char} (hc : c ∈ foreign) : c ∉ t := by
  have hall : ∀ c ∈ foreign, c ∉ marks ∧ isNameChar c = false := Text.forall_mem_of_all (by decide)
  intro hmem
  obtain hmark | hname := h.mem hmem
  · exact (hall c hc).1 hmark
  · rw [(hall c hc).2] at hname
    cases hname

variable {items : List Spaced} {u v x : Text}

theorem not_mem_render (hitems : ∀ s ∈ items, IsToken s.token) {c : Char} (hc : c ∈ foreign) :
    c ∉ render items := by
  have hblank : ∀ c ∈ foreign, Text.isBlank c = false := Text.forall_mem_of_all (by decide)
  intro hmem
  obtain ⟨s, hs, hmem⟩ := List.mem_flatMap.1 hmem
  obtain hgap | htoken := List.mem_append.1 hmem
  · exact Text.not_mem_of_blank s.isBlank_of_mem (hblank c hc) hgap
  · exact (hitems s hs).not_mem_foreign hc htoken

theorem render_cons (s : Spaced) (items : List Spaced) :
    render (s :: items) = s.gap ++ (s.token ++ render items) := by
  rw [render, List.flatMap_cons, List.append_assoc]
  rfl

theorem head_of_parted {s : Spaced} (hchain : List.IsChain Parted (s :: items))
    (hitems : ∀ s ∈ items, IsToken s.token) (hword : ∀ c ∈ s.token, isNameChar c = true)
    (hx : ∀ c ∈ x, Text.isBlank c = true) : ∀ c ∈ (render items ++ x).head?, isNameChar c = false := by
  have hblank : ∀ c, Text.isBlank c = true → isNameChar c = false := by
    intro c hc
    simp [isNameChar, hc]
  intro c hc
  cases items with
  | nil => exact hblank c (hx c (List.mem_of_mem_head? hc))
  | cons b items =>
    obtain ⟨hparted, -⟩ := List.isChain_cons_cons.1 hchain
    rw [render_cons, List.append_assoc] at hc
    by_cases hgap : b.gap = []
    · have hmark : ∀ c ∈ marks, isNameChar c = false := Text.forall_mem_of_all (by decide)
      obtain ⟨d, hd, htoken⟩ | ⟨-, hall, -⟩ := hitems b List.mem_cons_self
      · rw [hgap, htoken] at hc
        obtain rfl := Option.some.inj hc
        exact hmark d hd
      · exact absurd hgap (hparted (List.all_eq_true.2 hword) (List.all_eq_true.2 hall))
    · obtain ⟨d, gap, hgap⟩ := List.exists_cons_of_ne_nil hgap
      rw [hgap] at hc
      obtain rfl := Option.some.inj hc
      exact hblank d (b.isBlank_of_mem d (hgap ▸ List.mem_cons_self))

theorem import_append_ne {t u v : Text} (ht : IsToken t)
    (hu : (∀ c ∈ t, isNameChar c = true) → ∀ c ∈ u.head?, isNameChar c = false)
    (hv : ∃ c ∈ v.head?, Text.isBlank c = true) : "import" ++ v ≠ t ++ u := by
  intro heq
  have himport : ("import" : Text) = 'i' :: "mport" := by decide
  have hletters : ∀ c ∈ ("import" : Text), isNameChar c = true := Text.forall_mem_of_all (by decide)
  obtain ⟨c, hc, hblank⟩ := hv
  obtain ⟨d, hd, rfl⟩ | ⟨-, hall, hne⟩ := ht
  · rw [himport] at heq
    obtain ⟨rfl, -⟩ := List.cons.inj heq
    exact absurd hd (by decide)
  · have hbreak : isNameChar c = false := by simp [isNameChar, hblank]
    cases hhead : u.head? with
    | none =>
      rw [List.head?_eq_none_iff.1 hhead, List.append_nil] at heq
      have hmem : c ∈ t := heq ▸ List.mem_append_right _ (List.mem_of_mem_head? hc)
      rw [hall c hmem] at hbreak
      cases hbreak
    | some d =>
      have hstop := Text.append_inj_of_head hletters hall ⟨c, hc, hbreak⟩ ⟨d, hhead, hu hall d hhead⟩ heq
      exact hne hstop.1.symm

theorem blank_getLast_of_append (h : ∀ c ∈ (u ++ v).getLast?, Text.isBlank c = true) :
    ∀ c ∈ v.getLast?, Text.isBlank c = true := by
  intro c hc
  refine h c ?_
  rw [List.getLast?_append, hc]
  rfl

theorem head_import (v : Text) : ∃ c ∈ (("import" : Text) ++ v).head?, Text.isBlank c = false := by
  have himport : ("import" : Text) = 'i' :: "mport" := by decide
  exact ⟨'i', by rw [himport]; rfl, by decide⟩

theorem import_not_in_render (hchain : List.IsChain Parted items)
    (hitems : ∀ s ∈ items, IsToken s.token) (hx : ∀ c ∈ x, Text.isBlank c = true)
    (hu : ∀ c ∈ u.getLast?, Text.isBlank c = true) (hv : ∃ c ∈ v.head?, Text.isBlank c = true) :
    u ++ ("import" ++ v) ≠ render items ++ x := by
  induction items generalizing u with
  | nil =>
    intro heq
    obtain ⟨z, -, hz⟩ := Text.exists_of_run hx (head_import v) ((List.append_nil x).trans heq.symm)
    exact absurd hz (by simp)
  | cons s items ih =>
    obtain ⟨htoken, hrest⟩ := List.forall_mem_cons.1 hitems
    intro heq
    rw [render_cons, List.append_assoc, List.append_assoc] at heq
    obtain ⟨z, rfl, hz⟩ := Text.exists_of_run s.isBlank_of_mem (head_import v) heq.symm
    have hlast := blank_getLast_of_append hu
    obtain ⟨y, rfl, hy⟩ | ⟨y, htaken, -⟩ := List.append_eq_append_iff.1 hz
    · exact ih hchain.tail hrest (blank_getLast_of_append hlast) hy.symm
    · -- The token would end with a blank character, or be the word itself.
      cases hend : z.getLast? with
      | none =>
        rw [List.getLast?_eq_none_iff.1 hend] at hz
        refine import_append_ne htoken (fun hword ↦ ?_) hv hz.symm
        exact head_of_parted hchain hrest hword hx
      | some c =>
        have hmem : c ∈ s.token := htaken ▸ List.mem_append_left y (List.mem_of_getLast? hend)
        exact absurd (hlast c hend) (by simp [htoken.isBlank_of_mem hmem])

theorem getLast_render (hitems : ∀ s ∈ items, IsToken s.token) :
    ∃ c ∈ ("import" ++ render items).getLast?, Text.isBlank c = false := by
  obtain rfl | ⟨items, s, rfl⟩ := List.eq_nil_or_concat items
  · exact ⟨'t', by decide, by decide⟩
  · have htoken := hitems s (by simp)
    have hlast := List.getLast?_eq_some_getLast htoken.ne_nil
    have hrender : "import" ++ render (items ++ [s]) = "import" ++ render items ++ s.gap ++ s.token := by
      simp only [render, List.flatMap_append, List.flatMap_cons, List.flatMap_nil, List.append_nil,
        List.append_assoc]
    refine ⟨_, ?_, htoken.isBlank_of_mem (List.getLast_mem htoken.ne_nil)⟩
    rw [List.concat_eq_append, hrender, List.getLast?_append, hlast]
    rfl

theorem blank_getLast_of_lineStart {front indent : Text} (hfront : front.getLast?.all (· = '\n') = true)
    (hindent : ∀ c ∈ indent, Text.isBlank c = true) :
    ∀ c ∈ (front ++ indent).getLast?, Text.isBlank c = true := by
  intro c hc
  obtain rfl | ⟨indent, d, rfl⟩ := List.eq_nil_or_concat indent
  · rw [List.append_nil] at hc
    rw [hc] at hfront
    obtain rfl : c = '\n' := of_decide_eq_true hfront
    decide
  · rw [List.concat_eq_append, ← List.append_assoc, List.getLast?_concat] at hc
    obtain rfl := Option.some.inj hc
    exact hindent d (by simp)

theorem eq_nil_of_reads {front x : Text} (hchain : List.IsChain Parted items)
    (hitems : ∀ s ∈ items, IsToken s.token) (hx : ∀ c ∈ x, Text.isBlank c = true)
    (hfront : ∀ c ∈ front.getLast?, Text.isBlank c = true) (hv : ∃ c ∈ v.head?, Text.isBlank c = true)
    (h : front ++ ("import" ++ v) = "import" ++ (render items ++ x)) : front = [] := by
  obtain ⟨z, hz, -⟩ | ⟨z, rfl, hz⟩ := List.append_eq_append_iff.1 h
  · cases hend : front.getLast? with
    | none => exact List.getLast?_eq_none_iff.1 hend
    | some c =>
      have hletters : ∀ c ∈ ("import" : Text), Text.isBlank c = false := Text.forall_mem_of_all (by decide)
      have hmem : c ∈ ("import" : Text) := hz ▸ List.mem_append_left z (List.mem_of_getLast? hend)
      exact absurd (hfront c hend) (by simp [hletters c hmem])
  · exact absurd hz.symm (import_not_in_render hchain hitems hx (blank_getLast_of_append hfront) hv)

namespace Declaration

variable {d : Declaration}

theorem isToken_of_mem : ∀ s ∈ d.first :: d.others, IsToken s.token :=
  fun _ hs ↦ Clause.isToken_of_mem (d.tokens_eq ▸ List.mem_map_of_mem hs)

theorem head_eq (d : Declaration) : d.head =
    "import" ++ (render (d.first :: d.others) ++ (d.beforeFrom ++ ("from" ++ d.beforeModule))) := by
  -- The equation that `rw` makes of the definition evaluates the letters of the first word.
  delta head
  rfl

theorem exists_of_head_eq {i : Import} {front : Text} (h : front ++ i.head = d.head) :
    ∃ x, front ++ i.indent ++ ("import" ++ (i.beforeNames ++ i.names)) =
        "import" ++ (render (d.first :: d.others) ++ x) ∧
      d.beforeFrom = x ++ i.beforeFrom ∧ i.beforeModule = d.beforeModule := by
  have hword : ∀ t : Text, ∃ c ∈ (t ++ "from").getLast?, Text.isBlank c = false := by
    intro t
    refine ⟨'m', ?_, by decide⟩
    rw [List.getLast?_append, show ("from" : Text).getLast? = some 'm' by decide]
    rfl
  simp only [Import.head, head_eq, ← List.append_assoc] at h
  obtain ⟨hfrom, hmodule⟩ := Text.append_inj_of_getLast (hword _) (hword _) i.blank_beforeModule.2
    d.isBlank_beforeModule h
  obtain ⟨x, hx, hbefore⟩ := Text.exists_of_run_end i.blank_beforeFrom.2
    (getLast_render isToken_of_mem) (List.append_cancel_right hfrom)
  exact ⟨x, by simpa only [List.append_assoc] using hx, hbefore, hmodule⟩

/-- Where the declaration is recognized, it is on one line. -/
theorem onOneLine_of_head_eq {i : Import} {front : Text} (hfront : front.getLast?.all (· = '\n') = true)
    (h : front ++ i.head = d.head) : d.OnOneLine := by
  obtain ⟨x, hread, hbefore, hmodule⟩ := exists_of_head_eq h
  have hx : ∀ c ∈ x, Text.isBlank c = true := fun c hc ↦
    d.isBlank_beforeFrom c (hbefore ▸ List.mem_append_left _ hc)
  obtain ⟨b, blanks, hblanks⟩ := List.exists_cons_of_ne_nil i.blank_beforeNames.1
  have hhead : ∃ c ∈ (i.beforeNames ++ i.names).head?, Text.isBlank c = true :=
    ⟨b, by rw [hblanks]; rfl, i.blank_beforeNames.2 b (hblanks ▸ List.mem_cons_self)⟩
  have hchain : List.IsChain Parted (d.first :: d.others) := d.parted.tail.prefix (List.prefix_append _ _)
  have hnil := eq_nil_of_reads hchain isToken_of_mem hx
    (blank_getLast_of_lineStart hfront i.blank_indent) hhead hread
  rw [hnil, List.nil_append, render_cons, List.append_assoc, List.append_assoc] at hread
  obtain ⟨y, hgap, hy⟩ := Text.exists_of_run i.blank_beforeNames.2
    ((isToken_of_mem _ List.mem_cons_self).head_append _) (List.append_cancel_left hread)
  refine ⟨?_, fun s hs hmem ↦ i.unbroken_names.2 ?_, ?_, hmodule ▸ i.blank_beforeModule.1⟩
  · rw [hgap]
    exact List.append_ne_nil_of_left_ne_nil i.blank_beforeNames.1 y
  · have hmem : '\n' ∈ render d.others := List.mem_flatMap.2 ⟨s, hs, List.mem_append_left _ hmem⟩
    rw [hy]
    simp [hmem]
  · rw [hbefore]
    exact List.append_ne_nil_of_right_ne_nil x i.blank_beforeFrom.1

/-- On one line, the declaration is recognized. -/
theorem OnOneLine.exists_import (h : d.OnOneLine) {indent : Text}
    (hindent : ∀ c ∈ indent, Text.isBlank c = true) : ∃ i : Import, indent ++ d.text = i.text := by
  have htokens : ∀ s ∈ d.first :: d.others, '\n' ∉ s.token := by
    intro s hs hmem
    exact absurd ((isToken_of_mem s hs).isBlank_of_mem hmem) (by decide)
  have hnames : '\n' ∉ d.first.token ++ render d.others := by
    refine List.not_mem_append (htokens _ List.mem_cons_self) fun hmem ↦ ?_
    obtain ⟨s, hs, hmem⟩ := List.mem_flatMap.1 hmem
    exact List.not_mem_append (h.others s hs) (htokens s (List.mem_cons_of_mem _ hs)) hmem
  have hne : d.first.token ++ render d.others ≠ [] := by
    have hfirst := (isToken_of_mem d.first List.mem_cons_self).ne_nil
    simp [hfirst]
  refine ⟨⟨indent, d.first.gap, _, d.beforeFrom, d.beforeModule, d.quote, d.module, d.quote, hindent,
    ⟨h.first, d.first.isBlank_of_mem⟩, ⟨hne, hnames⟩, ⟨h.beforeFrom, d.isBlank_beforeFrom⟩,
    ⟨h.beforeModule, d.isBlank_beforeModule⟩, d.isQuote_quote, ⟨d.module_ne_nil, d.isQuote_module⟩,
    d.isQuote_quote⟩, ?_⟩
  simp [text, head_eq, Import.text, Import.head, render_cons]

theorem not_mem_head {c : Char} (hc : c ∈ foreign) : c ∉ d.head := by
  have hwords : ∀ c ∈ foreign, c ∉ ("import" : Text) ∧ c ∉ ("from" : Text) ∧ Text.isBlank c = false :=
    Text.forall_mem_of_all (by decide)
  obtain ⟨himport, hfrom, hblank⟩ := hwords c hc
  have hrender : c ∉ render (d.first :: d.others) := not_mem_render isToken_of_mem hc
  have hbeforeFrom := Text.not_mem_of_blank d.isBlank_beforeFrom hblank
  have hbeforeModule := Text.not_mem_of_blank d.isBlank_beforeModule hblank
  simp only [head_eq, List.mem_append]
  grind

theorem isQuote_of_mem_head {c : Char} (hc : c ∈ d.head) : isQuote c = false := by
  rw [Bool.eq_false_iff]
  intro hquote
  obtain rfl | rfl := isQuote_iff.1 hquote
  · exact not_mem_head (by decide) hc
  · exact not_mem_head (by decide) hc

theorem quote_not_mem {w : Text} (hw : ∀ c ∈ w, isQuote c = false) : d.quote ∉ w := by
  intro hmem
  have hquote := hw d.quote hmem
  rw [d.isQuote_quote] at hquote
  cases hquote

theorem text_append (d : Declaration) (rest : Text) :
    d.text ++ rest = d.head ++ d.quote :: (d.module ++ d.quote :: rest) := by
  simp [text]

theorem infix_of_infix_text {w rest : Text} (hw : ∀ c ∈ w, isQuote c = false)
    (h : w <:+: d.text ++ rest) : w <:+: d.head ∨ w <:+: d.module ∨ w <:+: rest := by
  rwa [text_append, Text.infix_append_cons_iff (quote_not_mem hw),
    Text.infix_append_cons_iff (quote_not_mem hw)] at h

end Declaration

end CanvasLift.Component.Completeness
