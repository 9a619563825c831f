import CanvasLift.Proofs.Component.Wrapper
import CanvasLift.Proofs.Pattern.Breaks
import CanvasLift.Proofs.Text.Trim

namespace CanvasLift.Component.Completeness

open Pattern

/-- An import of a module as it is recognized: its names are one run of characters without a line
break. -/
structure Import where
  indent : Text
  beforeNames : Text
  names : Text
  beforeFrom : Text
  beforeModule : Text
  opening : Char
  module : Text
  closing : Char
  blank_indent : ∀ c ∈ indent, Text.isBlank c = true
  blank_beforeNames : beforeNames ≠ [] ∧ ∀ c ∈ beforeNames, Text.isBlank c = true
  unbroken_names : names ≠ [] ∧ '\n' ∉ names
  blank_beforeFrom : beforeFrom ≠ [] ∧ ∀ c ∈ beforeFrom, Text.isBlank c = true
  blank_beforeModule : beforeModule ≠ [] ∧ ∀ c ∈ beforeModule, Text.isBlank c = true
  isQuote_opening : isQuote opening = true
  unquoted_module : module ≠ [] ∧ ∀ c ∈ module, isQuote c = false
  isQuote_closing : isQuote closing = true

namespace Import

variable (i : Import)

def head : Text :=
  i.indent ++ ("import" ++ (i.beforeNames ++ (i.names ++ (i.beforeFrom ++ ("from" ++
    i.beforeModule)))))

def text : Text := i.head ++ i.opening :: (i.module ++ [i.closing])

end Import

theorem isQuote_iff {c : Char} : isQuote c = true ↔ c = '"' ∨ c = '\'' := by simp [isQuote]

theorem isBlank_of_isQuote {c : Char} (h : isQuote c = true) : Text.isBlank c = false := by
  obtain rfl | rfl := isQuote_iff.1 h
  · decide
  · decide

theorem ne_of_isQuote {c : Char} (h : isQuote c = true) : c ≠ '\n' := by
  rintro rfl
  cases h

variable {last : Option Char} {taken rest t : Text}

theorem takes_quotedText_iff : quotedText.Takes last taken rest ↔
    ∃ q m q', taken = q :: (m ++ [q']) ∧ isQuote q = true ∧ (m ≠ [] ∧ ∀ c ∈ m, isQuote c = false) ∧
      isQuote q' = true := by
  constructor
  · intro h
    obtain ⟨_, _, rfl, ⟨q, rfl, hq⟩, m, _, rfl, hm, _, _, rfl, ⟨q', rfl, hq'⟩, rfl⟩ := h
    obtain ⟨hne, hall⟩ := takes_run.1 hm
    exact ⟨q, m, q', rfl, hq, ⟨hne, by simpa using hall⟩, hq'⟩
  · intro h
    obtain ⟨q, m, q', rfl, hq, ⟨hne, hall⟩, hq'⟩ := h
    refine takes_chain_append (u := [q]) ⟨q, rfl, hq⟩ ?_
    refine takes_chain_append (takes_run.2 ⟨hne, by simpa using hall⟩) ?_
    exact takes_chain_singleton ⟨q', rfl, hq'⟩

theorem looksAhead_of_mem_stubs {a : Pattern} (h : a ∈ stubs) : a.LooksAhead := by
  have hstub : ∀ {middle}, (chain middle).isPlain = true → (stubWith middle).LooksAhead :=
    fun hplain _ _ _ _ h ↦ (takes_stubWith_iff hplain).2 ((takes_stubWith_iff hplain).1 h)
  rw [stubs_eq] at h
  obtain rfl | h := List.mem_cons.1 h
  · exact hstub (by decide)
  · rw [List.mem_singleton.1 h]
    exact hstub (by decide)

theorem takes_importDeclaration_iff : importDeclaration.Takes last taken rest ↔
    last.all (· = '\n') = true ∧ ∃ i : Import, taken = i.text := by
  constructor
  · intro h
    obtain ⟨_, _, rfl, ⟨rfl, hstart⟩, indent, _, rfl, hindent, word, _, rfl, hword, before, _, rfl,
      hbefore, names, _, rfl, hnames, before', _, rfl, hbefore', word', _, rfl, hword', before'', _,
      rfl, hbefore'', quoted, _, rfl, hquoted, rfl⟩ := h
    obtain ⟨q, m, q', rfl, hq, hm, hq'⟩ := takes_quotedText_iff.1 hquoted
    obtain ⟨hne, hall⟩ := takes_run.1 hnames
    refine ⟨hstart, ⟨indent, before, names, before', before'', q, m, q', hindent, takes_run.1 hbefore,
      ⟨hne, fun hmem ↦ ?_⟩, takes_run.1 hbefore', takes_run.1 hbefore'', hq, hm, hq'⟩, ?_⟩
    · exact absurd (hall '\n' hmem) (by decide)
    · rw [takes_literal.1 hword, takes_literal.1 hword']
      simp [Import.text, Import.head]
  · intro h
    obtain ⟨hstart, i, rfl⟩ := h
    have hnames : ∀ c ∈ i.names, decide (c ≠ '\n') = true := by
      intro c hc
      refine decide_eq_true fun heq ↦ ?_
      exact i.unbroken_names.2 (heq ▸ hc)
    simp only [Import.text, Import.head, List.append_assoc]
    refine takes_chain_skip ⟨rfl, hstart⟩ (takes_chain_append i.blank_indent ?_)
    refine takes_chain_append (takes_literal.2 rfl) ?_
    refine takes_chain_append (takes_run.2 i.blank_beforeNames) ?_
    refine takes_chain_append (takes_run.2 ⟨i.unbroken_names.1, hnames⟩) ?_
    refine takes_chain_append (takes_run.2 i.blank_beforeFrom) ?_
    refine takes_chain_append (takes_literal.2 rfl) ?_
    refine takes_chain_append (takes_run.2 i.blank_beforeModule) ?_
    exact takes_chain_singleton (takes_quotedText_iff.2 ⟨i.opening, i.module, i.closing, rfl,
      i.isQuote_opening, i.unquoted_module, i.isQuote_closing⟩)

def classWord : Text := "className="

theorem occursIn_wideClasses_iff : wideClasses.occursIn t = true ↔
    ∃ front middle b c back, t = front ++ (classWord ++ (middle ++ b :: c :: back)) ∧
      '\n' ∉ middle ∧ Text.isBlank b = true ∧ Text.isBlank c = true := by
  rw [occursIn_iff]
  constructor
  · intro h
    obtain ⟨front, _, rest, rfl, word, _, rfl, hword, middle, _, rfl, hmiddle, _, _, rfl,
      ⟨b, rfl, hb⟩, blanks, _, rfl, hblanks, rfl⟩ := h
    obtain ⟨hne, hall⟩ := takes_run.1 hblanks
    obtain ⟨c, blanks, rfl⟩ := List.exists_cons_of_ne_nil hne
    obtain rfl : word = classWord := takes_literal.1 hword
    refine ⟨front, middle, b, c, blanks ++ rest, by simp, fun hmem ↦ ?_, hb,
      hall c List.mem_cons_self⟩
    exact absurd (hmiddle '\n' hmem) (by decide)
  · intro h
    obtain ⟨front, middle, b, c, back, rfl, hmiddle, hb, hc⟩ := h
    refine ⟨front, classWord ++ (middle ++ ([b] ++ [c])), back, by simp, ?_⟩
    refine takes_chain_append (takes_literal.2 rfl) (takes_chain_append (fun d hd ↦ ?_) ?_)
    · exact decide_eq_true fun heq ↦ hmiddle (heq ▸ hd)
    · refine takes_chain_append ⟨b, rfl, hb⟩ (takes_chain_singleton (takes_run.2 ?_))
      simpa using hc

def richTags : List Text := ["<button", "<nav", "<header", "<aside", "<main"]

theorem richTags_eq : richTags =
    ((["button", "nav", "header", "aside", "main"] : List String).map String.toList).map
      ('<' :: ·) := by
  decide

theorem occursIn_richElement_iff : richElement.occursIn t = true ↔
    ∃ tag ∈ richTags, ∃ b, Text.isBlank b = true ∧ tag ++ [b] <:+: t := by
  rw [occursIn_iff, richTags_eq]
  constructor
  · intro h
    obtain ⟨front, _, rest, rfl, _, _, rfl, hopen, word, _, rfl, hword, _, _, rfl, ⟨b, rfl, hb⟩,
      rfl⟩ := h
    rw [takes_literal.1 hopen]
    exact ⟨_, List.mem_map_of_mem (takes_oneOf.1 hword), b, hb, front, rest, by simp⟩
  · intro h
    obtain ⟨tag, htag, b, hb, front, rest, rfl⟩ := h
    obtain ⟨word, hword, rfl⟩ := List.mem_map.1 htag
    refine ⟨front, ['<'] ++ (word ++ [b]), rest, by simp, ?_⟩
    refine takes_chain_append (takes_literal.2 rfl) ?_
    exact takes_chain_append (takes_oneOf.2 hword) (takes_chain_singleton ⟨b, rfl, hb⟩)

end CanvasLift.Component.Completeness
