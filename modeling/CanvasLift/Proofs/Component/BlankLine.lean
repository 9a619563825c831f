import CanvasLift.Proofs.Component.Indicator

namespace CanvasLift.Component.Completeness

open Pattern

variable {middle : List Pattern} {last : Option Char} {rest t u v : Text}

theorem looksAhead_closing : closing.LooksAhead :=
  fun _ _ _ _ h ↦ takes_closing_iff.2 (takes_closing_iff.1 h)

theorem isFirm_closing : closing.IsFirm := IsFirm.cons (isFirm_literal (by decide))

theorem isElastic_closing : closing.IsElastic := by
  have hlineEnd : (chain [lineEnd]).IsElastic :=
    isElastic_of_takes_nil fun _ _ _ h ↦ (takes_chain_singleton_iff.1 h).1
  have hblanks : (chain [many Text.isBlank, lineEnd]).IsElastic :=
    hlineEnd.many_cons looksAhead_lineEnd.singleton
  have hahead : (chain [optional (literal ";"), many Text.isBlank, lineEnd]).LooksAhead :=
    .cons (looksAhead_of_isPlain (by decide))
      (.cons (looksAhead_of_isPlain rfl) looksAhead_lineEnd.singleton)
  exact .avoids_cons (by decide) (.many_cons (.avoids_cons (by decide) hblanks) hahead)

theorem isElastic_content (p : Char → Bool) :
    (chain [literal ">", many Text.isBlank, many p, closing]).IsElastic := by
  have htext : (chain [many p, closing]).IsElastic :=
    (isElastic_many p).cons isElastic_closing.singleton (.inr isFirm_closing.cons)
  have hahead : (chain [many p, closing]).LooksAhead :=
    .cons (looksAhead_of_isPlain rfl) looksAhead_closing.singleton
  exact .avoids_cons (by decide) (htext.many_cons hahead)

theorem isElastic_quotedText : quotedText.IsElastic := by
  have hquote : (chain [quoteMark]).IsElastic := .avoids_cons (by decide) isElastic_nil
  have hfirm : (chain [quoteMark]).IsFirm := (isFirm_one (by decide)).cons
  exact .avoids_cons (by decide) ((isElastic_run _).cons hquote (.inr hfirm))

theorem not_takes_quotedText_concat :
    ¬ quotedText.Takes last (u ++ ['\n']) rest := by
  intro h
  obtain ⟨q, m, c, heq, -, -, hc⟩ := takes_quotedText_iff.1 h
  rw [← List.cons_append] at heq
  obtain ⟨-, hlast⟩ := List.append_inj' heq rfl
  obtain rfl := List.cons.inj hlast |>.1
  cases hc

theorem isFirm_quotedText : quotedText.IsFirm := (isFirm_one (by decide)).cons

theorem isElastic_markedInside :
    (chain [run Text.isBlank, literal "data-component-id=", quotedText, many (· ≠ '>'), literal ">",
      many Text.isBlank, many (· ≠ '<'), closing]).IsElastic := by
  have htag := (isElastic_many fun c ↦ c ≠ '>').cons (isElastic_content fun c ↦ c ≠ '<')
    (.inr (isFirm_literal (by decide)).cons)
  have hquoted := isElastic_quotedText.cons htag (.inl fun _ _ _ ↦ not_takes_quotedText_concat)
  have hmarker := IsElastic.avoids_cons (a := literal "data-component-id=") (by decide) hquoted
  exact (isElastic_run _).cons hmarker (.inr (isFirm_literal (by decide)).cons)

theorem isElastic_bareInside :
    (chain [many (· ≠ '>'), literal ">", many Text.isBlank, many fun c ↦ c ≠ '<' && c ≠ '\x7b',
      closing]).IsElastic :=
  (isElastic_many _).cons (isElastic_content _) (.inr (isFirm_literal (by decide)).cons)

theorem Shape.of_break {blanks inside ending taken : Text}
    (h : Shape middle blanks inside ending (taken ++ ['\n'])) :
    ∃ ending, Shape middle blanks inside ending taken := by
  obtain ⟨heq, hblank, hinside, hending⟩ := h
  obtain rfl | ⟨ending, c, rfl⟩ := List.eq_nil_or_concat ending
  · have hclose : ("</div>" : Text) = "</div" ++ ['>'] := by decide
    rw [List.append_nil, hclose] at heq
    simp only [← List.append_assoc] at heq
    obtain ⟨-, hlast⟩ := List.append_inj' heq rfl
    cases hlast
  · rw [List.concat_eq_append] at heq hending
    simp only [← List.append_assoc] at heq
    obtain ⟨htaken, -⟩ := List.append_inj' heq rfl
    exact ⟨ending, ⟨by simpa using htaken, hblank, hinside, hending.of_append⟩⟩

theorem ignoresBlankLines_stubWith (hplain : (chain middle).isPlain = true)
    (helastic : (chain (middle ++ [closing])).IsElastic) : (stubWith middle).IgnoresBlankLines where
  toIsElastic := by
    have htag := IsElastic.avoids_cons (a := literal "<div") (by decide) helastic
    have hblanks := (isElastic_many Text.isBlank).cons htag (.inr (isFirm_literal (by decide)).cons)
    exact .avoids_cons (by decide) hblanks
  ne_nil h := by
    obtain ⟨c, hc, -⟩ := (isFirm_literal (by decide)).cons _ _ _ h
    cases hc
  start_iff := by
    intro taken rest
    rw [takes_stubWith_iff hplain, takes_stubWith_iff hplain]
  start h := by
    obtain ⟨c, hc, hne⟩ := (isFirm_literal (by decide)).cons _ _ _ h
    exact absurd (Option.some.inj hc).symm hne
  stop_iff := by
    intro last taken
    rw [takes_stubWith_iff hplain, takes_stubWith_iff hplain]
    exact Iff.rfl
  stop h := by
    obtain ⟨⟨blanks, inside, ending, hshape⟩, hend⟩ := (takes_stubWith_iff hplain).1 h
    obtain ⟨ending, hshape⟩ := hshape.of_break
    exact (takes_stubWith_iff hplain).2 ⟨⟨blanks, inside, ending, hshape⟩, hend⟩

theorem isElastic_importDeclaration : importDeclaration.IsElastic := by
  have hmodule : (chain [run Text.isBlank, quotedText]).IsElastic :=
    (isElastic_run _).cons isElastic_quotedText.singleton (.inr isFirm_quotedText.cons)
  have hfrom := IsElastic.avoids_cons (a := literal "from") (by decide) hmodule
  have hnames := IsElastic.avoids_cons (a := run fun c ↦ c ≠ '\n') (by decide)
    ((isElastic_run Text.isBlank).cons hfrom (.inr (isFirm_literal (by decide)).cons))
  have hword := IsElastic.avoids_cons (a := literal "import") (by decide)
    ((isElastic_run Text.isBlank).cons hnames (.inr (isFirm_run (by decide)).cons))
  have hindent := (isElastic_many Text.isBlank).cons hword (.inr (isFirm_literal (by decide)).cons)
  have hstart : ∀ last taken rest, lineStart.Takes last taken rest → taken = [] := fun _ _ _ h ↦ h.1
  refine (isElastic_of_takes_nil hstart).cons hindent (.inl fun _ _ _ h ↦ ?_)
  exact absurd (hstart _ _ _ h) (by simp)

theorem Import.exists_of_break {i : Import} (h : i.text = '\n' :: t) : ∃ j : Import, t = j.text := by
  have himport : ("import" : Text) = 'i' :: "mport" := by decide
  cases hindent : i.indent with
  | nil =>
    rw [Import.text, Import.head, hindent, himport] at h
    cases h
  | cons c indent =>
    have hblank : ∀ d ∈ indent, Text.isBlank d = true := fun d hd ↦
      i.blank_indent d (hindent ▸ List.mem_cons_of_mem c hd)
    rw [Import.text, Import.head, hindent] at h
    obtain ⟨-, rfl⟩ := List.cons.inj h
    exact ⟨{ i with indent := indent, blank_indent := hblank }, rfl⟩

theorem ignoresBlankLines_importDeclaration : importDeclaration.IgnoresBlankLines where
  toIsElastic := isElastic_importDeclaration
  ne_nil h := by
    obtain ⟨-, i, hi⟩ := takes_importDeclaration_iff.1 h
    exact absurd hi (by simp [Import.text])
  start_iff := by
    intro taken rest
    rw [takes_importDeclaration_iff, takes_importDeclaration_iff]
    exact Iff.rfl
  start h := by
    obtain ⟨hlast, i, hi⟩ := takes_importDeclaration_iff.1 h
    exact takes_importDeclaration_iff.2 ⟨hlast, Import.exists_of_break hi.symm⟩
  stop_iff := by
    intro last taken
    rw [takes_importDeclaration_iff, takes_importDeclaration_iff]
  stop h := by
    obtain ⟨-, i, hi⟩ := takes_importDeclaration_iff.1 h
    rw [Import.text, ← List.cons_append, ← List.append_assoc] at hi
    obtain ⟨-, hlast⟩ := List.append_inj' hi rfl
    exact absurd (List.cons.inj hlast).1.symm (ne_of_isQuote i.isQuote_closing)

theorem ignoresBlankLines_words (choices : List Text) (havoids : (oneOf choices).avoids '\n' = true)
    (hne : [] ∉ choices) : (oneOf choices).IgnoresBlankLines :=
  ignoresBlankLines_of_avoids havoids fun _ _ h ↦ hne (takes_oneOf.1 h)

theorem ignoresBlankLines_marker : marker.IgnoresBlankLines :=
  ignoresBlankLines_words ["data-component-id"] (by decide) (by decide)

theorem ignoresBlankLines_of_mem_stubs {a : Pattern} (h : a ∈ stubs) : a.IgnoresBlankLines := by
  rw [stubs_eq] at h
  obtain rfl | h := List.mem_cons.1 h
  · exact ignoresBlankLines_stubWith (by decide) isElastic_markedInside
  · rw [List.mem_singleton.1 h]
    exact ignoresBlankLines_stubWith (by decide) isElastic_bareInside

theorem kinds_of_indicators :
    ∀ a ∈ indicators, a.IgnoresBlankLines ∨ a = wideClasses ∨ a = richElement := by
  simp only [indicators, List.forall_mem_cons, List.not_mem_nil, false_implies, implies_true,
    and_true, true_or, or_true]
  refine ⟨.inl ?_, .inl ignoresBlankLines_importDeclaration, .inl ?_, .inl ?_⟩
  · exact ignoresBlankLines_words ["@carbon/icons-react"] (by decide) (by decide)
  · exact ignoresBlankLines_words _ (by decide) (by decide)
  · exact ignoresBlankLines_words _ (by decide) (by decide)

/-- The text ends within a class attribute, with a blank character. -/
def OpenClasses (t : Text) : Prop :=
  ∃ front middle b, t = front ++ (classWord ++ (middle ++ [b])) ∧ '\n' ∉ middle ∧
    Text.isBlank b = true

/-- The text ends within the name of an element, or with it. -/
def OpenElement (t : Text) : Prop := ∃ tag ∈ richTags, tag <:+ t

theorem break_not_mem_richTags {tag : Text} (h : tag ∈ richTags) : '\n' ∉ tag := by
  revert h tag
  decide

theorem not_openElement_nil : ¬ OpenElement [] := by
  intro h
  obtain ⟨tag, htag, hsuffix⟩ := h
  rw [List.suffix_nil.1 hsuffix] at htag
  exact absurd htag (by decide)

theorem not_openElement_break : ¬ OpenElement (t ++ ['\n']) := by
  intro h
  obtain ⟨tag, htag, hsuffix⟩ := h
  have hnil := (Text.suffix_append_cons_iff (break_not_mem_richTags htag)).1 hsuffix
  exact not_openElement_nil ⟨tag, htag, hnil⟩

theorem waitsForBlank_richElement : richElement.WaitsForBlank OpenElement where
  occursIn_iff t := by
    rw [occursIn_richElement_iff]
    constructor
    · intro h
      obtain ⟨tag, htag, b, hb, front, back, rfl⟩ := h
      exact ⟨front ++ tag, b, back, by simp, ⟨tag, htag, List.suffix_append _ _⟩, hb⟩
    · intro h
      obtain ⟨_, b, back, rfl, ⟨tag, htag, front, rfl⟩, hb⟩ := h
      exact ⟨tag, htag, b, hb, front, back, by simp⟩
  after_break_iff := by
    intro u z hz
    refine exists_congr fun tag ↦ and_congr_right fun htag ↦ ?_
    exact Text.suffix_append_cons_iff (break_not_mem_richTags htag)
  not_nil := not_openElement_nil
  not_break := not_openElement_break (t := [])

theorem waitsForBlank_wideClasses : wideClasses.WaitsForBlank OpenClasses where
  occursIn_iff t := by
    rw [occursIn_wideClasses_iff]
    constructor
    · intro h
      obtain ⟨front, middle, b, c, back, rfl, hmiddle, hb, hc⟩ := h
      exact ⟨_, c, back, by simp, ⟨front, middle, b, rfl, hmiddle, hb⟩, hc⟩
    · intro h
      obtain ⟨_, c, back, rfl, ⟨front, middle, b, rfl, hmiddle, hb⟩, hc⟩ := h
      exact ⟨front, middle, b, c, back, by simp, hmiddle, hb, hc⟩
  after_break_iff := by
    intro u z hz
    constructor
    · intro h
      obtain ⟨front, middle, b, heq, hmiddle, hb⟩ := h
      obtain ⟨y, rfl, rfl⟩ | ⟨y, rfl, hy⟩ := Text.append_cons_eq_append_iff.1 heq
      · exact ⟨y, middle, b, rfl, hmiddle, hb⟩
      · -- The line break would be the last character, or one before it.
        obtain ⟨z, c, rfl⟩ := List.eq_nil_or_concat z |>.resolve_left hz
        rw [List.concat_eq_append, ← List.append_assoc, ← List.cons_append, ← List.append_assoc] at hy
        have hmem : '\n' ∈ classWord ++ middle := by
          rw [(List.append_inj' hy rfl).1]
          simp
        exact absurd hmem (List.not_mem_append (by decide) hmiddle)
    · intro h
      obtain ⟨front, middle, b, rfl, hmiddle, hb⟩ := h
      exact ⟨u ++ '\n' :: front, middle, b, by simp, hmiddle, hb⟩
  not_nil h := by
    obtain ⟨front, middle, b, heq, -⟩ := h
    exact absurd heq (by simp)
  not_break h := by
    obtain ⟨front, middle, b, heq, -⟩ := h
    have hlength := congrArg List.length heq
    have hword : classWord.length = 10 := by decide
    simp only [List.length_append, List.length_cons, List.length_nil] at hlength
    omega

theorem indicators_insert_iff (h : u = [] ∨ u.getLast? = some '\n' ∨ v = []) :
    (∃ a ∈ indicators, a.occursIn (u ++ '\n' :: v) = true) ↔
      (∃ a ∈ indicators, a.occursIn (u ++ v) = true) ∨ OpenClasses u ∨ OpenElement u := by
  have hclasses := waitsForBlank_wideClasses.occursIn_insert_iff h
  have helement := waitsForBlank_richElement.occursIn_insert_iff h
  constructor
  · intro hnew
    obtain ⟨a, ha, hoccurs⟩ := hnew
    obtain hignores | rfl | rfl := kinds_of_indicators a ha
    · exact .inl ⟨a, ha, (hignores.occursIn_insert_iff h).1 hoccurs⟩
    · exact (hclasses.1 hoccurs).imp (⟨_, ha, ·⟩) .inl
    · exact (helement.1 hoccurs).imp (⟨_, ha, ·⟩) .inr
  · intro hold
    obtain ⟨a, ha, hoccurs⟩ | hopen | hopen := hold
    · obtain hignores | rfl | rfl := kinds_of_indicators a ha
      · exact ⟨a, ha, (hignores.occursIn_insert_iff h).2 hoccurs⟩
      · exact ⟨_, ha, hclasses.2 (.inl hoccurs)⟩
      · exact ⟨_, ha, helement.2 (.inl hoccurs)⟩
    · exact ⟨wideClasses, by simp [indicators], hclasses.2 (.inr hopen)⟩
    · exact ⟨richElement, by simp [indicators], helement.2 (.inr hopen)⟩

theorem stubs_insert_iff (h : u = [] ∨ u.getLast? = some '\n' ∨ v = []) :
    (∃ a ∈ stubs, a.occursIn (u ++ '\n' :: v) = true) ↔ ∃ a ∈ stubs, a.occursIn (u ++ v) = true :=
  exists_congr fun _ ↦ and_congr_right fun ha ↦
    (ignoresBlankLines_of_mem_stubs ha).occursIn_insert_iff h

theorem classify_insert_iff (h : u = [] ∨ u.getLast? = some '\n' ∨ v = []) :
    classify (u ++ '\n' :: v) = classify (u ++ v) ↔
      (classify (u ++ v) = .stub → ¬ OpenClasses u ∧ ¬ OpenElement u) := by
  have hmarker : marker.occursIn (u ++ '\n' :: v) = marker.occursIn (u ++ v) :=
    Bool.eq_iff_iff.2 (ignoresBlankLines_marker.occursIn_insert_iff h)
  have hstubs : (stubs.any fun a ↦ a.occursIn (u ++ '\n' :: v)) =
      stubs.any fun a ↦ a.occursIn (u ++ v) := by
    rw [Bool.eq_iff_iff, List.any_eq_true, List.any_eq_true]
    exact stubs_insert_iff h
  have hindicators := indicators_insert_iff h
  rw [← List.any_eq_true, ← List.any_eq_true] at hindicators
  rw [classify, classify, hmarker, hstubs, ← not_or]
  cases marker.occursIn (u ++ v) with
  | false => simp
  | true =>
    cases stubs.any fun a ↦ a.occursIn (u ++ v) with
    | false => simp
    | true =>
      cases hold : indicators.any fun a ↦ a.occursIn (u ++ v) with
      | true => simp [hindicators.2 (.inl hold)]
      | false =>
        rw [hold] at hindicators
        simp only [Bool.false_eq_true, false_or] at hindicators
        rw [← hindicators]
        cases indicators.any fun a ↦ a.occursIn (u ++ '\n' :: v) <;> simp

theorem openClasses_line_iff {line : Text} (hline : '\n' ∉ line) :
    OpenClasses (line ++ ['\n']) ↔ classWord <:+: line := by
  constructor
  · intro h
    obtain ⟨front, middle, b, heq, -⟩ := h
    simp only [← List.append_assoc] at heq
    exact ⟨front, middle, (List.append_inj' heq rfl).1.symm⟩
  · intro h
    obtain ⟨front, middle, rfl⟩ := h
    exact ⟨front, middle, '\n', by simp, fun hmem ↦ hline (List.mem_append_right _ hmem),
      by decide⟩

theorem openClasses_unlines_iff {above : List Text} {line : Text} (hline : '\n' ∉ line) :
    OpenClasses (Text.unlines (above ++ [line]) ++ ['\n']) ↔ classWord <:+: line := by
  rw [← openClasses_line_iff hline]
  by_cases hnil : above = []
  · rw [hnil, List.nil_append, Text.unlines_singleton]
  · rw [Text.unlines_append hnil (List.cons_ne_nil _ _), Text.unlines_singleton, List.append_assoc,
      List.cons_append]
    exact waitsForBlank_wideClasses.after_break_iff (by simp)

theorem classify_between_iff (above below : List Text) (habove : ∀ line ∈ above, '\n' ∉ line)
    (hbelow : below ≠ []) :
    classify (Text.unlines (above ++ [] :: below)) = classify (Text.unlines (above ++ below)) ↔
      (classify (Text.unlines (above ++ below)) = .stub →
        ∀ line ∈ above.getLast?, ¬ classWord <:+: line) := by
  have hempty : Text.unlines ([] :: below) = '\n' :: Text.unlines below :=
    Text.unlines_append (List.cons_ne_nil [] []) hbelow
  obtain rfl | ⟨above, line, rfl⟩ := List.eq_nil_or_concat above
  · have hkept := classify_insert_iff (u := []) (v := Text.unlines below) (.inl rfl)
    simp only [List.nil_append] at hkept ⊢
    rw [hempty, hkept]
    simp [waitsForBlank_wideClasses.not_nil, not_openElement_nil]
  · rw [List.concat_eq_append] at habove ⊢
    have hline := habove line (by simp)
    have hne : above ++ [line] ≠ [] := by simp
    have hkept := classify_insert_iff (u := Text.unlines (above ++ [line]) ++ ['\n'])
      (v := Text.unlines below) (.inr (.inl (by simp)))
    rw [List.append_assoc, List.append_assoc, openClasses_unlines_iff hline] at hkept
    rw [Text.unlines_append hne (List.cons_ne_nil _ _), Text.unlines_append hne hbelow, hempty]
    refine hkept.trans (imp_congr_right fun _ ↦ ?_)
    simp [not_openElement_break]

/-- Where an empty line is put in, the verdict is kept: a file other than a placeholder keeps it, a
placeholder unless the line above has a class attribute. At the end of the file it is what the
file ends with that counts. -/
theorem verdict_kept_iff (content : Text) (k : Nat) :
    classify (Text.unlines ((Text.lines content).take k ++ [] :: (Text.lines content).drop k)) =
        classify content ↔
      (classify content = .stub →
        (k < (Text.lines content).length →
          ∀ line ∈ ((Text.lines content).take k).getLast?, ¬ classWord <:+: line) ∧
        ((Text.lines content).length ≤ k → ¬ OpenClasses content ∧ ¬ OpenElement content)) := by
  obtain hlt | hle := Nat.lt_or_ge k (Text.lines content).length
  · have habove : ∀ line ∈ (Text.lines content).take k, '\n' ∉ line := fun line hline hmem ↦
      (Text.mem_of_mem_splitOn (List.mem_of_mem_take hline) hmem).2 rfl
    have hkept := classify_between_iff _ ((Text.lines content).drop k) habove (by simpa using hlt)
    rw [List.take_append_drop, Text.unlines_lines] at hkept
    simp [hkept, hlt, Nat.not_le.2 hlt]
  · have hkept := classify_insert_iff (u := content) (v := []) (.inr (.inr rfl))
    have hnew : Text.unlines (Text.lines content ++ [[]]) = content ++ ['\n'] := by
      have hne : Text.lines content ≠ [] := Text.splitOn_ne_nil _ _
      rw [Text.unlines_append hne (List.cons_ne_nil _ _), Text.unlines_lines]
      rfl
    rw [List.append_nil] at hkept
    rw [List.take_of_length_le hle, List.drop_of_length_le hle, hnew, hkept]
    simp [hle, Nat.not_lt.2 hle]

def placeholder : Text :=
  "export default function Badge() \x7b\n" ++
  "  return <div className=\"x\" data-component-id=\"badge\">badge</div>;\n" ++
  "\x7d\n"

/-- The empty line after the class attribute makes a full interface of the placeholder. -/
theorem placeholder_passed : classify placeholder = .stub ∧
    classify (Text.unlines ((Text.lines placeholder).take 2 ++
      [] :: (Text.lines placeholder).drop 2)) = .complete := by
  decide

end CanvasLift.Component.Completeness
