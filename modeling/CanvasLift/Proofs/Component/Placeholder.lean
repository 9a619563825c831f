import CanvasLift.Component.Completeness
import CanvasLift.Component.Template
import CanvasLift.Proofs.Identifier
import CanvasLift.Proofs.Pattern.Match

namespace CanvasLift.Component.Template

open Completeness Pattern

theorem fallback_of_require {raw id : Text} (h : Identifier.require (some raw) = .ok id) :
    fallback id = fallback raw := by
  have hid := Identifier.sanitize_of_isAllowed (Identifier.isAllowed_of_require h)
  rw [fallback, fallback, curated?, curated?, hid, Identifier.eq_sanitize_of_require h]

theorem fallback_eq_stub {raw id : Text} (h : Identifier.require (some raw) = .ok id)
    (hcurated : curated? raw = none) : fallback raw = stub id := by
  rw [fallback, hcurated, Identifier.eq_sanitize_of_require h]
  rfl

def directive : Text := "\"use client\";"

def described : Text :=
  "// Placeholder: replace with the full markup of the canvas element type \""

def describedEnd : Text := "\"."

def hint : Text := "// Run `canvasgen check "

def hintEnd : Text := "` after copying the UI over."

def heading : Text := "export default function "

def headingEnd : Text := "() \x7b"

def returned : Text := "  return <div data-component-id=\""

def tagEnd : Text := "\">"

def returnedEnd : Text := "</div>;"

def closingBrace : Text := "\x7d"

def fixedParts : List Text :=
  [directive, [], described, describedEnd, hint, hintEnd, heading, headingEnd, returned, tagEnd,
    returnedEnd, closingBrace]

def fronts : List Text := [described, hint, heading, returned, tagEnd]

def backs : List Text := [describedEnd, hintEnd, headingEnd, tagEnd, returnedEnd]

def stubLines (id : Text) : List Text :=
  [directive, [], described ++ (id ++ describedEnd), hint ++ (id ++ hintEnd),
    heading ++ (Identifier.componentName id ++ headingEnd),
    returned ++ (id ++ (tagEnd ++ (id ++ returnedEnd))), closingBrace, []]

theorem append_eq_unlines {a a' b c c' d e e' f g g' h i j j' k k' id name : Text}
    (ha : a = a' ++ ['\n', '\n']) (hc : c = c' ++ ['\n']) (he : e = e' ++ ['\n'])
    (hg : g = g' ++ ['\n']) (hj : j = j' ++ ['\n']) (hk : k = k' ++ ['\n']) :
    a ++ b ++ id ++ c ++ d ++ id ++ e ++ f ++ name ++ g ++ h ++ id ++ i ++ id ++ j ++ k =
      Text.unlines [a', [], b ++ (id ++ c'), d ++ (id ++ e'), f ++ (name ++ g'),
        h ++ (id ++ (i ++ (id ++ j'))), k', []] := by
  subst ha hc he hg hj hk
  simp [Text.unlines, Text.joinWith, List.intercalate]

theorem stub_eq_unlines (id : Text) : stub id = Text.unlines (stubLines id) := by
  have ha : ("\"use client\";\n\n" : Text) = directive ++ ['\n', '\n'] := by decide
  have hc : ("\".\n" : Text) = describedEnd ++ ['\n'] := by decide
  have he : ("` after copying the UI over.\n" : Text) = hintEnd ++ ['\n'] := by decide
  have hg : ("() \x7b\n" : Text) = headingEnd ++ ['\n'] := by decide
  have hj : ("</div>;\n" : Text) = returnedEnd ++ ['\n'] := by decide
  have hk : ("\x7d\n" : Text) = closingBrace ++ ['\n'] := by decide
  exact append_eq_unlines ha hc he hg hj hk

theorem stubLines_ne_nil (id : Text) : stubLines id ≠ [] := List.cons_ne_nil _ _

/-- The characters at which the fixed parts meet the lines, the id and the name. -/
def edges : List Char := ['\n', ' ', '"', '`', '(', '<', '>']

/-- The words of the design system that only a full interface is taken to use. -/
def styleWords : List Text :=
  ["border-brandcolor", "bg-brandcolor", "text-brandcolor", "rounded-large", "rounded-button",
    "shadow-card"]

def HasStyleWord (id : Text) : Prop := ∃ w ∈ styleWords, w <:+: id

-- All that is read off the letters of the parts is evaluated here, once.
theorem fixedParts_facts :
    (∀ part ∈ fronts, part.getLast?.any (· ∈ edges) = true) ∧
    (∀ part ∈ backs, part.head?.any (· ∈ edges) = true) ∧
    (∀ part ∈ fixedParts, part.all (· ∉ ['\n', '\r', '@', 'N']) = true) ∧
    (∀ part ∈ [directive, described, hint, heading, returned, closingBrace],
      (Text.trimStart part).head?.any (· ≠ 'i') = true) ∧
    (∀ part ∈ [directive, described, describedEnd, hint, hintEnd, heading, headingEnd,
      closingBrace], '<' ∉ part) ∧
    ∀ part ∈ fixedParts, (oneOf styleWords).occursIn part = false := by
  decide

theorem infix_enclosed {w front middle back rest : Text} (hw : edges.all (· ∉ w) = true)
    (hfront : front ∈ fronts) (hback : back ∈ backs)
    (h : w <:+: front ++ (middle ++ (back ++ rest))) :
    w <:+: front ∨ w <:+: middle ∨ w <:+: back ++ rest := by
  obtain ⟨hlast, hhead, -⟩ := fixedParts_facts
  obtain ⟨c, hc, hce⟩ := (Option.any_eq_true _ _).1 (hlast front hfront)
  obtain ⟨d, hd, hde⟩ := (Option.any_eq_true _ _).1 (hhead back hback)
  have hclear : ∀ x ∈ edges, x ∉ w := fun x hx ↦ of_decide_eq_true (List.all_eq_true.1 hw x hx)
  refine Text.infix_between ⟨c, hc, hclear c (of_decide_eq_true hce)⟩
    ⟨d, ?_, hclear d (of_decide_eq_true hde)⟩ h
  rw [List.head?_append, hd]
  rfl

theorem infix_surrounded {w front middle back : Text} (hw : edges.all (· ∉ w) = true)
    (hfront : front ∈ fronts) (hback : back ∈ backs) (h : w <:+: front ++ (middle ++ back)) :
    (∃ part ∈ fixedParts, w <:+: part) ∨ w <:+: middle := by
  have hfronts : fronts ⊆ fixedParts := by simp [fronts, fixedParts]
  have hbacks : backs ⊆ fixedParts := by simp [backs, fixedParts]
  rw [← List.append_nil back] at h
  obtain h | h | h := infix_enclosed hw hfront hback h
  · exact .inl ⟨front, hfronts hfront, h⟩
  · exact .inr h
  · rw [List.append_nil] at h
    exact .inl ⟨back, hbacks hback, h⟩

/-- A word that does not reach over an edge is in a placeholder only where a part of it has the
word. -/
theorem infix_of_infix_stub {w id : Text} (hw : edges.all (· ∉ w) = true) (h : w <:+: stub id) :
    (∃ part ∈ fixedParts, w <:+: part) ∨ w <:+: id ∨ w <:+: Identifier.componentName id := by
  have hbreak : '\n' ∉ w := of_decide_eq_true (List.all_eq_true.1 hw '\n' (by decide))
  rw [stub_eq_unlines] at h
  obtain ⟨line, hline, h⟩ := Text.infix_unlines hbreak (stubLines_ne_nil id) h
  simp only [stubLines, List.mem_cons, List.not_mem_nil, or_false] at hline
  obtain hl | hl | hl | hl | hl | hl | hl | hl := hline
  all_goals subst hl
  · exact .inl ⟨directive, by simp [fixedParts], h⟩
  · exact .inl ⟨[], by simp [fixedParts], h⟩
  · obtain h | h := infix_surrounded hw (by simp [fronts]) (by simp [backs]) h
    · exact .inl h
    · exact .inr (.inl h)
  · obtain h | h := infix_surrounded hw (by simp [fronts]) (by simp [backs]) h
    · exact .inl h
    · exact .inr (.inl h)
  · obtain h | h := infix_surrounded hw (by simp [fronts]) (by simp [backs]) h
    · exact .inl h
    · exact .inr (.inr h)
  · obtain h | h | h := infix_enclosed hw (by simp [fronts]) (by simp [backs]) h
    · exact .inl ⟨returned, by simp [fixedParts], h⟩
    · exact .inr (.inl h)
    · obtain h | h := infix_surrounded hw (by simp [fronts]) (by simp [backs]) h
      · exact .inl h
      · exact .inr (.inl h)
  · exact .inl ⟨closingBrace, by simp [fixedParts], h⟩
  · exact .inl ⟨[], by simp [fixedParts], h⟩

theorem mem_of_mem_stubLines {c : Char} {id line : Text} (hline : line ∈ stubLines id)
    (h : c ∈ line) :
    (∃ part ∈ fixedParts, c ∈ part) ∨ c ∈ id ∨ c ∈ Identifier.componentName id := by
  simp only [stubLines, List.mem_cons, List.not_mem_nil, or_false] at hline
  simp only [fixedParts, List.mem_cons, List.not_mem_nil, or_false, exists_eq_or_imp,
    exists_eq_left]
  obtain hl | hl | hl | hl | hl | hl | hl | hl := hline
  all_goals subst hl
  all_goals
    try simp only [List.mem_append] at h
    grind

theorem not_mem_fixedParts {part : Text} (hpart : part ∈ fixedParts) {c : Char} (hc : c ∈ part) :
    c ∉ ['\n', '\r', '@', 'N'] := by
  obtain ⟨-, -, hclear, -⟩ := fixedParts_facts
  exact of_decide_eq_true (List.all_eq_true.1 (hclear part hpart) c hc)

theorem head?_trimStart_fixed {part : Text}
    (hpart : part ∈ [directive, described, hint, heading, returned, closingBrace]) :
    ∃ c, (Text.trimStart part).head? = some c ∧ c ≠ 'i' := by
  obtain ⟨-, -, -, hstart, -⟩ := fixedParts_facts
  obtain ⟨c, hc, hne⟩ := (Option.any_eq_true _ _).1 (hstart part hpart)
  exact ⟨c, hc, of_decide_eq_true hne⟩

variable {id : Text} (hid : ∀ c ∈ id, Identifier.isAllowed c = true)

include hid

theorem not_mem_of_mem_stubLines {c : Char} (hc : c ∈ ['\n', '\r', '@']) {line : Text}
    (hline : line ∈ stubLines id) : c ∉ line := by
  intro h
  have hall : ['\n', '\r', '@'].all fun d ↦
      !Identifier.isAllowed d && !d.isAlphanum && d ∈ ['\n', '\r', '@', 'N'] := by decide
  have hc' := List.all_eq_true.1 hall c hc
  simp only [Bool.and_eq_true, Bool.not_eq_true', decide_eq_true_eq] at hc'
  obtain ⟨⟨hallowed, halphanum⟩, habsent⟩ := hc'
  obtain ⟨part, hpart, h⟩ | h | h := mem_of_mem_stubLines hline h
  · exact not_mem_fixedParts hpart h habsent
  · exact Identifier.not_mem_of_isAllowed hid hallowed h
  · exact Identifier.not_mem_componentName halphanum h

theorem not_mem_stub {c : Char} (hc : c ∈ ['\r', '@']) : c ∉ stub id := by
  intro h
  obtain ⟨front, rest, hstub⟩ := List.append_of_mem h
  have hin : [c] <:+: Text.unlines (stubLines id) :=
    ⟨front, rest, by rw [← stub_eq_unlines, hstub]; simp⟩
  have hne : '\n' ∉ [c] := by
    intro heq
    rw [← List.mem_singleton.1 heq] at hc
    revert hc
    decide
  obtain ⟨line, hline, hin⟩ := Text.infix_unlines hne (stubLines_ne_nil id) hin
  exact not_mem_of_mem_stubLines hid (List.mem_cons_of_mem _ hc) hline
    (hin.mem (List.mem_singleton_self c))

theorem lines_stub : Text.lines (stub id) = stubLines id := by
  rw [stub_eq_unlines]
  exact Text.lines_unlines (stubLines_ne_nil id) fun line ↦ not_mem_of_mem_stubLines hid (by decide)

theorem not_occursIn_stub_icons : (literal "@carbon/icons-react").occursIn (stub id) = false := by
  rw [Bool.eq_false_iff]
  intro h
  have hmem := (occursIn_literal.1 h).mem (a := '@') (by decide)
  exact not_mem_stub hid (by decide) hmem

theorem not_occursIn_stub_wideClasses : wideClasses.occursIn (stub id) = false := by
  rw [Bool.eq_false_iff]
  intro h
  obtain ⟨part, hpart, h⟩ | h | h := infix_of_infix_stub (by decide) (infix_of_occursIn_chain h)
  · exact not_mem_fixedParts hpart (c := 'N') (h.mem (by decide)) (by decide)
  · exact Identifier.not_mem_of_isAllowed hid (c := '=') (by decide) (h.mem (by decide))
  · exact Identifier.not_mem_componentName (c := '=') (by decide) (h.mem (by decide))

theorem not_occursIn_stub_imports : importDeclaration.occursIn (stub id) = false := by
  rw [Bool.eq_false_iff]
  intro h
  obtain ⟨line, hline, hword⟩ := exists_line_of_occursIn (by simp) (by simp; decide) h
  rw [lines_stub hid] at hline
  obtain ⟨more, hmore⟩ := hword
  have hhead : (Text.trimStart line).head? = some 'i' := by
    rw [← hmore]
    rfl
  have hnone : ∀ part ∈ [directive, described, hint, heading, returned, closingBrace], ∀ rest,
      line = part ++ rest → False := by
    intro part hpart rest hsplit
    obtain ⟨c, hc, hne⟩ := head?_trimStart_fixed hpart
    rw [hsplit, Text.head?_trimStart_append hc] at hhead
    exact hne (Option.some.inj hhead)
  simp only [stubLines, List.mem_cons, List.not_mem_nil, or_false] at hline
  obtain hl | hl | hl | hl | hl | hl | hl | hl := hline
  all_goals subst hl
  · exact hnone directive (by simp) [] (List.append_nil _).symm
  · cases hhead
  · exact hnone described (by simp) _ rfl
  · exact hnone hint (by simp) _ rfl
  · exact hnone heading (by simp) _ rfl
  · exact hnone returned (by simp) _ rfl
  · exact hnone closingBrace (by simp) [] (List.append_nil _).symm
  · cases hhead

theorem eq_returned_of_mem {line : Text} (hline : line ∈ stubLines id) (h : '<' ∈ line) :
    line = returned ++ (id ++ (tagEnd ++ (id ++ returnedEnd))) := by
  have hid' := Identifier.not_mem_of_isAllowed hid (c := '<') (by decide)
  have hname := Identifier.not_mem_componentName (t := id) (c := '<') (by decide)
  obtain ⟨-, -, -, -, hfixed, -⟩ := fixedParts_facts
  simp only [List.forall_mem_cons, List.not_mem_nil] at hfixed
  simp only [stubLines, List.mem_cons, List.not_mem_nil, or_false] at hline
  obtain hl | hl | hl | hl | hl | hl | hl | hl := hline
  all_goals subst hl
  all_goals
    try simp only [List.mem_append] at h
    grind

theorem not_occursIn_stub_richElement : richElement.occursIn (stub id) = false := by
  rw [Bool.eq_false_iff]
  intro h
  obtain ⟨front, taken, rest, hstub, u, v, rfl, hu, word, more, rfl, hword, -⟩ :=
    (occursIn_iff _ _).1 h
  obtain rfl : u = ['<'] := takes_literal.1 hu
  have hmem := takes_oneOf.1 hword
  have hwords :
      ∀ w ∈ (["button", "nav", "header", "aside", "main"] : List String).map String.toList,
      '\n' ∉ '<' :: w ∧ ∃ c, w.head? = some c ∧ c ≠ 'd' ∧ c ≠ '/' := by simp
  obtain ⟨hbreak, c, hc, hd, hslash⟩ := hwords word hmem
  have hin : '<' :: word <:+: Text.unlines (stubLines id) :=
    ⟨front, more ++ rest, by rw [← stub_eq_unlines, hstub]; simp⟩
  obtain ⟨line, hline, hin⟩ := Text.infix_unlines hbreak (stubLines_ne_nil id) hin
  have hreturned : returned = "  return " ++ '<' :: 'd' :: "iv data-component-id=\"" := by
    decide
  have hend : returnedEnd = '<' :: '/' :: "div>;" := by decide
  have hsplit : returned ++ (id ++ (tagEnd ++ (id ++ returnedEnd))) =
      "  return " ++ '<' :: (('d' :: "iv data-component-id=\"" ++ (id ++ (tagEnd ++ id))) ++
        '<' :: '/' :: "div>;") := by
    simp only [hreturned, hend, List.append_assoc, List.cons_append]
  rw [eq_returned_of_mem hid hline (hin.mem List.mem_cons_self), hsplit] at hin
  obtain h | h := Text.cons_infix_append_cons (by decide) hin
  · exact hd (Option.some.inj (Text.head?_eq_of_prefix h hc)).symm
  · have hopen : '<' ∉ 'd' :: "iv data-component-id=\"" ++ (id ++ (tagEnd ++ id)) := by
      have hid' := Identifier.not_mem_of_isAllowed hid (c := '<') (by decide)
      have hfixed : '<' ∉ 'd' :: ("iv data-component-id=\"" : Text) ∧ '<' ∉ tagEnd := by
        decide
      rw [List.mem_append, List.mem_append, List.mem_append, not_or, not_or, not_or]
      exact ⟨hfixed.1, hid', hfixed.2, hid'⟩
    obtain h | h := Text.cons_infix_append_cons hopen h
    · exact hslash (Option.some.inj (Text.head?_eq_of_prefix h hc)).symm
    · have hclosed : '<' ∉ '/' :: ("div>;" : Text) := by decide
      exact hclosed (h.mem List.mem_cons_self)

omit hid

theorem exists_stub_eq (id : Text) : ∃ front rest,
    stub id = front ++ (returned ++ (id ++ (tagEnd ++ (id ++ returnedEnd))) ++ '\n' :: rest) := by
  obtain ⟨front, hfront⟩ := Text.exists_unlines_eq
    [directive, [], described ++ (id ++ describedEnd), hint ++ (id ++ hintEnd),
      heading ++ (Identifier.componentName id ++ headingEnd)]
    (returned ++ (id ++ (tagEnd ++ (id ++ returnedEnd)))) closingBrace [[]]
  exact ⟨front, _, (stub_eq_unlines id).trans hfront⟩

theorem id_infix_stub (id : Text) : id <:+: stub id := by
  obtain ⟨front, rest, hstub⟩ := exists_stub_eq id
  exact ⟨front ++ returned, tagEnd ++ (id ++ returnedEnd) ++ '\n' :: rest, by simp [hstub]⟩

theorem marker_occursIn_stub (id : Text) : marker.occursIn (stub id) = true := by
  obtain ⟨front, rest, hstub⟩ := exists_stub_eq id
  have hreturned : returned = "  return <div " ++ ("data-component-id" ++ ['=', '"']) := by
    decide
  refine occursIn_literal.2 ⟨front ++ "  return <div ",
    ['=', '"'] ++ (id ++ (tagEnd ++ (id ++ returnedEnd)) ++ '\n' :: rest), ?_⟩
  simp only [hstub, hreturned, List.append_assoc]

def element (id : Text) : Text :=
  "return" ++ (" " ++ ("<div" ++ (" " ++ ("data-component-id=" ++ (('"' :: (id ++ ['"'])) ++
    (">" ++ (id ++ ("</div>" ++ ";"))))))))

theorem takes_element {last : Option Char} {rest : Text}
    (hid : ∀ c ∈ id, Identifier.isAllowed c = true) (hne : id ≠ []) :
    markedStub.Takes last (element id) ('\n' :: rest) := by
  have hquote : ∀ c ∈ id, (!isQuote c) = true := by
    intro c hc
    cases hq : isQuote c with
    | false => rfl
    | true =>
      have hmem : c = '"' ∨ c = '\'' := by simpa [isQuote] using hq
      obtain rfl | rfl := hmem
      · exact absurd (hid _ hc) (by decide)
      · exact absurd (hid _ hc) (by decide)
  have htag : ∀ c ∈ id, decide (c ≠ '<') = true := by
    intro c hc
    apply decide_eq_true
    intro heq
    exact Identifier.not_mem_of_isAllowed hid (c := '<') (by decide) (heq ▸ hc)
  have hblank : ∀ c ∈ (" " : Text), Text.isBlank c = true := by
    intro c hc
    obtain rfl : c = ' ' := by simpa using hc
    decide
  have hquoted : ∀ last rest, quotedText.Takes last ('"' :: (id ++ ['"'])) rest := by
    intro last rest
    refine takes_chain_append (u := ['"']) ⟨'"', rfl, rfl⟩ ?_
    exact takes_chain_append (takes_run.2 ⟨hne, hquote⟩) (takes_chain_singleton ⟨'"', rfl, rfl⟩)
  have hend : ∀ last, (chain [optional (literal ";"), many Text.isBlank, lineEnd]).Takes last ";"
      ('\n' :: rest) := by
    intro last
    rw [← List.append_nil (";" : Text)]
    refine takes_chain_append (takes_optional.2 (.inl (takes_literal.2 rfl))) ?_
    exact takes_chain_skip takes_many_nil (takes_chain_singleton ⟨rfl, rfl⟩)
  have hclosing : ∀ last, closing.Takes last ("</div>" ++ ";") ('\n' :: rest) := by
    intro last
    exact takes_chain_append (takes_literal.2 rfl) (takes_chain_skip takes_many_nil (hend _))
  refine takes_chain_append (takes_literal.2 rfl) ?_
  refine takes_chain_append hblank ?_
  refine takes_chain_append (takes_literal.2 rfl) ?_
  refine takes_chain_append (takes_run.2 ⟨by simp, hblank⟩) ?_
  refine takes_chain_append (takes_literal.2 rfl) ?_
  refine takes_chain_append (hquoted _ _) ?_
  refine takes_chain_skip takes_many_nil ?_
  refine takes_chain_append (takes_literal.2 rfl) ?_
  refine takes_chain_skip takes_many_nil ?_
  exact takes_chain_append htag (takes_chain_singleton (hclosing _))

theorem append_element_eq {front gap word blank tag key shown closed semicolon rest : Text} :
    front ++ ((gap ++ (word ++ (blank ++ (tag ++ (blank ++ (key ++ ['"'])))))) ++
        (id ++ (('"' :: shown) ++ (id ++ (closed ++ semicolon)))) ++ '\n' :: rest) =
      front ++ gap ++ ((word ++ (blank ++ (tag ++ (blank ++ (key ++
        (('"' :: (id ++ ['"'])) ++ (shown ++ (id ++ (closed ++ semicolon))))))))) ++
          '\n' :: rest) := by
  simp

theorem markedStub_occursIn_stub (hid : ∀ c ∈ id, Identifier.isAllowed c = true) (hne : id ≠ []) :
    markedStub.occursIn (stub id) = true := by
  obtain ⟨front, rest, hstub⟩ := exists_stub_eq id
  have hreturned : returned = "  " ++ ("return" ++ (" " ++ ("<div" ++ (" " ++
      ("data-component-id=" ++ ['"']))))) := by decide
  have htagEnd : tagEnd = '"' :: ">" := by decide
  have hend : returnedEnd = "</div>" ++ ";" := by decide
  refine (occursIn_iff _ _).2 ⟨front ++ "  ", element id, '\n' :: rest, ?_, takes_element hid hne⟩
  rw [hstub, hreturned, htagEnd, hend]
  exact append_element_eq

theorem mem_styleWords_iff {w : Text} :
    w ∈ styleWords ↔ w ∈ (["border-brandcolor", "bg-brandcolor", "text-brandcolor"] : List Text) ∨
      w ∈ (["rounded-large", "rounded-button", "shadow-card"] : List Text) :=
  List.mem_append (s := [_, _, _]) (t := [_, _, _])

theorem styleWords_facts : ∀ w ∈ styleWords, edges.all (· ∉ w) = true ∧ '-' ∈ w := by
  decide

theorem infix_stub_iff {w : Text} (hw : w ∈ styleWords) : w <:+: stub id ↔ w <:+: id := by
  constructor
  · intro h
    obtain ⟨-, -, -, -, -, hfixed⟩ := fixedParts_facts
    obtain ⟨hclear, hdash⟩ := styleWords_facts w hw
    obtain ⟨part, hpart, h⟩ | h | h := infix_of_infix_stub hclear h
    · have hoccurs := occursIn_oneOf.2 ⟨w, hw, h⟩
      rw [hfixed part hpart] at hoccurs
      cases hoccurs
    · exact h
    · exact absurd (h.mem hdash) (Identifier.not_mem_componentName (by decide))
  · exact fun h ↦ h.trans (id_infix_stub id)

theorem classify_stub_eq_stub_iff (hid : ∀ c ∈ id, Identifier.isAllowed c = true) (hne : id ≠ []) :
    classify (stub id) = .stub ↔ ¬ HasStyleWord id := by
  have hstubs : stubs.any (fun p ↦ p.occursIn (stub id)) = true :=
    List.any_eq_true.2 ⟨markedStub, List.mem_cons_self, markedStub_occursIn_stub hid hne⟩
  have hindicators : indicators.any (fun p ↦ p.occursIn (stub id)) =
      (oneOf styleWords).occursIn id := by
    rw [Bool.eq_iff_iff, occursIn_oneOf]
    simp only [indicators, List.any_cons, List.any_nil, not_occursIn_stub_icons hid,
      not_occursIn_stub_imports hid, not_occursIn_stub_wideClasses hid,
      not_occursIn_stub_richElement hid, Bool.false_or, Bool.or_false, Bool.or_eq_true,
      occursIn_oneOf]
    constructor
    · intro h
      obtain ⟨w, hw, h⟩ | ⟨w, hw, h⟩ := h
      · have hmem := mem_styleWords_iff.2 (.inl hw)
        exact ⟨w, hmem, (infix_stub_iff hmem).1 h⟩
      · have hmem := mem_styleWords_iff.2 (.inr hw)
        exact ⟨w, hmem, (infix_stub_iff hmem).1 h⟩
    · intro h
      obtain ⟨w, hmem, h⟩ := h
      obtain hw | hw := mem_styleWords_iff.1 hmem
      · exact .inl ⟨w, hw, (infix_stub_iff hmem).2 h⟩
      · exact .inr ⟨w, hw, (infix_stub_iff hmem).2 h⟩
  rw [classify, marker_occursIn_stub, hstubs, hindicators, HasStyleWord, ← occursIn_oneOf]
  cases (oneOf styleWords).occursIn id with
  | true => simp
  | false => simp

end CanvasLift.Component.Template
