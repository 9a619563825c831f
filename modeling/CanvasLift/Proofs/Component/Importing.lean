import CanvasLift.Proofs.Component.ImportDeclaration

namespace CanvasLift

theorem Pattern.occursIn_of_infix {a : Pattern} {t t' : Text} (ha : a.isPlain = true)
    (h : a.occursIn t = true) (ht : t <:+: t') : a.occursIn t' = true := by
  obtain ⟨front, taken, rest, rfl, htakes⟩ := (occursIn_iff a t).1 h
  obtain ⟨before, after, rfl⟩ := ht
  exact (occursIn_iff a _).2 ⟨before ++ front, taken, rest ++ after, by simp, htakes.of_isPlain ha⟩

namespace Component.Completeness

open Pattern

def shell : Text :=
  "\nexport default function Badge() \x7b\n  return <div data-component-id>badge</div>;\n\x7d\n"

theorem shell_facts : marker.occursIn shell = true ∧
    (stubs.any fun a ↦ a.occursIn shell) = true ∧
    (indicators.any fun a ↦ a.occursIn shell) = false ∧ shell.all (fun c ↦ !isQuote c) = true := by
  decide

theorem plain_or_import : ∀ a ∈ indicators, a.isPlain = true ∨ a = importDeclaration := by
  simp only [indicators, List.forall_mem_cons, List.not_mem_nil, false_implies, implies_true,
    and_true, or_true, true_and]
  exact ⟨.inl (by decide), .inl (by decide), .inl (by decide), .inl (by decide), .inl (by decide)⟩

theorem not_occursIn_shell {a : Pattern} (h : a ∈ indicators) : a.occursIn shell = false := by
  obtain ⟨-, -, hnone, -⟩ := shell_facts
  simpa using List.any_eq_false.1 hnone a h

namespace Declaration

variable {d : Declaration}

theorem infix_module {w : Text} (hw : ∀ c ∈ w, isQuote c = false) (hforeign : ∃ c ∈ w, c ∈ foreign)
    (hshell : ¬ w <:+: shell) (h : w <:+: d.text ++ shell) : w <:+: d.module := by
  obtain ⟨c, hc, hmem⟩ := hforeign
  obtain h | h | h := infix_of_infix_text hw h
  · exact absurd (h.mem hc) (not_mem_head hmem)
  · exact h
  · exact absurd h hshell

theorem oneOf_module {choices : List Text} (hmem : oneOf choices ∈ indicators)
    (hchoices : (choices.all fun w ↦ w.all (!isQuote ·) && w.any (· ∈ foreign)) = true)
    (h : (oneOf choices).occursIn (d.text ++ shell) = true) :
    (oneOf choices).occursIn d.module = true := by
  obtain ⟨w, hw, h⟩ := occursIn_oneOf.1 h
  obtain ⟨hquotes, hforeign⟩ := Bool.and_eq_true_iff.1 (List.all_eq_true.1 hchoices w hw)
  refine occursIn_oneOf.2 ⟨w, hw, infix_module (by simpa using hquotes) (by simpa using hforeign) ?_ h⟩
  intro hshell
  have hnone := not_occursIn_shell hmem
  rw [occursIn_oneOf.2 ⟨w, hw, hshell⟩] at hnone
  cases hnone

theorem richElement_module (h : richElement.occursIn (d.text ++ shell) = true) :
    richElement.occursIn d.module = true := by
  have htags : (richTags.all fun w ↦ w.all (!isQuote ·) && w.any (· ∈ foreign)) = true := by decide
  obtain ⟨tag, htag, b, hb, h⟩ := occursIn_richElement_iff.1 h
  obtain ⟨hquotes, hforeign⟩ := Bool.and_eq_true_iff.1 (List.all_eq_true.1 htags tag htag)
  obtain ⟨c, hc, hmem⟩ := List.any_eq_true.1 hforeign
  refine occursIn_richElement_iff.2 ⟨tag, htag, b, hb, infix_module ?_ ?_ ?_ h⟩
  · intro c hc
    obtain hc | hc := List.mem_append.1 hc
    · simpa using List.all_eq_true.1 hquotes c hc
    · rw [List.mem_singleton.1 hc, Bool.eq_false_iff]
      intro hquote
      rw [isBlank_of_isQuote hquote] at hb
      cases hb
  · exact ⟨c, List.mem_append_left _ hc, of_decide_eq_true hmem⟩
  · intro hshell
    have hnone := not_occursIn_shell (a := richElement) (by simp [indicators])
    rw [occursIn_richElement_iff.2 ⟨tag, htag, b, hb, hshell⟩] at hnone
    cases hnone

theorem head_eq_of_text {i : Import} {front rest : Text}
    (h : d.text ++ shell = front ++ (i.text ++ rest)) : front ++ i.head = d.head := by
  obtain ⟨-, -, -, hshell⟩ := shell_facts
  have hhead : ∀ c ∈ d.head, !isQuote c := fun c hc ↦ by simp [isQuote_of_mem_head hc]
  have hsplit : front ++ i.head ++ i.opening :: (i.module ++ i.closing :: rest) =
      d.head ++ d.quote :: (d.module ++ d.quote :: shell) := by
    rw [← text_append, h]
    simp [Import.text]
  have hcount := congrArg (List.countP isQuote) hsplit
  have hnone : ∀ t : Text, (∀ c ∈ t, isQuote c = false) → t.countP isQuote = 0 :=
    fun t ht ↦ List.countP_eq_zero.2 (by simpa using ht)
  have hrest : shell.countP isQuote = 0 := hnone _ (by simpa using hshell)
  rw [List.countP_append, List.countP_append, List.countP_cons_of_pos i.isQuote_opening,
    List.countP_append, List.countP_cons_of_pos i.isQuote_closing, List.countP_append,
    List.countP_cons_of_pos d.isQuote_quote, List.countP_append,
    List.countP_cons_of_pos d.isQuote_quote, hnone _ i.unquoted_module.2,
    hnone _ d.isQuote_module, hnone _ fun c hc ↦ isQuote_of_mem_head hc, hrest] at hcount
  have hfront : (front ++ i.head).countP isQuote = 0 := by
    rw [List.countP_append]
    omega
  have hunquoted : ∀ c ∈ front ++ i.head, !isQuote c := by simpa using List.countP_eq_zero.1 hfront
  exact (Text.append_cons_inj hunquoted hhead (by simp [i.isQuote_opening]) (by simp [d.isQuote_quote])
    hsplit).1

theorem importDeclaration_onOneLine (h : importDeclaration.occursIn (d.text ++ shell) = true) :
    d.OnOneLine := by
  obtain ⟨front, taken, rest, heq, htakes⟩ := (occursIn_iff _ _).1 h
  obtain ⟨hfront, i, rfl⟩ := takes_importDeclaration_iff.1 htakes
  exact onOneLine_of_head_eq hfront (head_eq_of_text heq)

theorem exists_of_quote {m middle back : Text} {b c : Char} (hmiddle : '\n' ∉ middle)
    (hb : Text.isBlank b = true) (hc : Text.isBlank c = true)
    (h : m ++ d.quote :: shell = middle ++ b :: c :: back) : ∃ y, m = middle ++ b :: c :: y := by
  have hquote := isBlank_of_isQuote d.isQuote_quote
  have htake : shell.take 2 = ['\n', 'e'] := by decide
  rw [← List.take_append_drop 2 shell, htake] at h
  obtain ⟨y, rfl, hy⟩ | ⟨y, rfl, hy⟩ := Text.append_cons_eq_append_iff.1 h
  · cases y with
    | nil =>
      obtain ⟨-, htail⟩ := List.cons.inj hy
      obtain ⟨rfl, -⟩ := List.cons.inj htail
      cases hc
    | cons e y =>
      obtain ⟨rfl, -⟩ := List.cons.inj hy
      exact absurd (by simp) hmiddle
  · cases y with
    | nil =>
      obtain ⟨rfl, -⟩ := List.cons.inj hy
      rw [hquote] at hb
      cases hb
    | cons e y =>
      obtain ⟨rfl, htail⟩ := List.cons.inj hy
      cases y with
      | nil =>
        obtain ⟨rfl, -⟩ := List.cons.inj htail
        rw [hquote] at hc
        cases hc
      | cons f y =>
        obtain ⟨rfl, -⟩ := List.cons.inj htail
        exact ⟨y, rfl⟩

theorem wideClasses_module (h : wideClasses.occursIn (d.text ++ shell) = true) :
    wideClasses.occursIn d.module = true := by
  obtain ⟨front, middle, b, c, back, heq, hmiddle, hb, hc⟩ := occursIn_wideClasses_iff.1 h
  have hword : '=' ∈ classWord ∧ '=' ∉ shell ∧ (classWord.all fun c ↦ !isQuote c) = true := by decide
  have hunquoted : d.quote ∉ classWord := quote_not_mem (by simpa using hword.2.2)
  rw [text_append] at heq
  obtain ⟨z, hz⟩ := Text.exists_of_word hunquoted hword.1 (not_mem_head (by decide)) heq.symm
  obtain ⟨y, -, hy⟩ | ⟨y, hmodule, hy⟩ := Text.append_cons_eq_append_iff.1 hz
  · exact absurd (hy ▸ by simp [hword.1]) hword.2.1
  · obtain ⟨m, hm, -⟩ | ⟨m, rfl, hm⟩ := Text.append_cons_eq_append_iff.1 hy.symm
    · exact absurd (hm ▸ by simp) hunquoted
    · obtain ⟨y, rfl⟩ := exists_of_quote hmiddle hb hc hm.symm
      exact occursIn_wideClasses_iff.2 ⟨z, middle, b, c, y, hmodule, hmiddle, hb, hc⟩

/-- In front of a placeholder, an import shows a full interface on one line, or through the name of its
module. -/
theorem onOneLine_or_module {a : Pattern} (ha : a ∈ indicators)
    (h : a.occursIn (d.text ++ shell) = true) : d.OnOneLine ∨ a.occursIn d.module = true := by
  have hmem := ha
  simp only [indicators, List.mem_cons, List.not_mem_nil, or_false] at hmem
  obtain rfl | rfl | rfl | rfl | rfl | rfl := hmem
  · exact .inr (oneOf_module (show oneOf ["@carbon/icons-react"] ∈ indicators from ha) (by decide) h)
  · exact .inl (importDeclaration_onOneLine h)
  · exact .inr (oneOf_module ha (by decide) h)
  · exact .inr (oneOf_module ha (by decide) h)
  · exact .inr (wideClasses_module h)
  · exact .inr (richElement_module h)

theorem classify_shell (h : ∀ a ∈ indicators, a.occursIn (d.text ++ shell) = false) :
    classify (d.text ++ shell) = .stub := by
  obtain ⟨hmarker, hstubs, -⟩ := shell_facts
  obtain ⟨a, ha, hstub⟩ := List.any_eq_true.1 hstubs
  refine classify_eq_stub_iff.2 ⟨occursIn_append_left (by decide) hmarker _, ⟨a, ha, ?_⟩, h⟩
  exact (looksAhead_of_mem_stubs ha).occursIn_append_left hstub _

theorem StandsIn.importDeclaration_occursIn {content : Text} (h : d.StandsIn content)
    (hline : d.OnOneLine) : importDeclaration.occursIn content = true := by
  obtain ⟨front, indent, back, rfl, hfront, hindent⟩ := h
  refine (occursIn_iff _ _).2 ⟨front, indent ++ d.text, back, by simp, ?_⟩
  exact takes_importDeclaration_iff.2 ⟨hfront, hline.exists_import hindent⟩

theorem StandsIn.occursIn_of_module {content : Text} (h : d.StandsIn content) {a : Pattern}
    (ha : a ∈ indicators) (hmodule : a.occursIn d.module = true) : a.occursIn content = true := by
  obtain hplain | rfl := plain_or_import a ha
  · obtain ⟨front, indent, back, rfl, -⟩ := h
    refine occursIn_of_infix hplain hmodule ⟨front ++ indent ++ d.head ++ [d.quote], d.quote :: back, ?_⟩
    simp [text]
  · -- The module has no quotes, and so no other import.
    obtain ⟨front, _, rest, heq, htakes⟩ := (occursIn_iff _ _).1 hmodule
    obtain ⟨-, i, rfl⟩ := takes_importDeclaration_iff.1 htakes
    have hmem : i.opening ∈ d.module := heq ▸ by simp [Import.text]
    have hquote := d.isQuote_module _ hmem
    rw [i.isQuote_opening] at hquote
    cases hquote

/-- An import keeps every file that has it from being taken for a placeholder exactly if its clause is
on one line, with blank characters around it and before the module, or if the name of the module is a
sign of a full interface. -/
theorem never_stub_iff (d : Declaration) :
    (∀ content, d.StandsIn content → classify content ≠ .stub) ↔
      d.OnOneLine ∨ ∃ a ∈ indicators, a.occursIn d.module = true := by
  constructor
  · intro hnever
    by_cases hfull : ∃ a ∈ indicators, a.occursIn (d.text ++ shell) = true
    · obtain ⟨a, ha, hoccurs⟩ := hfull
      exact (onOneLine_or_module ha hoccurs).imp_right fun hmodule ↦ ⟨a, ha, hmodule⟩
    · have hstub := classify_shell (d := d) (by simpa using hfull)
      exact absurd hstub (hnever _ ⟨[], [], shell, by simp, rfl, by simp⟩)
  · intro h content hcontent hstub
    obtain ⟨-, -, hnone⟩ := classify_eq_stub_iff.1 hstub
    obtain hline | ⟨a, ha, hmodule⟩ := h
    · have habsent := hnone importDeclaration (by simp [indicators])
      rw [hcontent.importDeclaration_occursIn hline] at habsent
      cases habsent
    · have habsent := hnone a ha
      rw [hcontent.occursIn_of_module ha hmodule] at habsent
      cases habsent

def spread : Declaration where
  clause := .listed [⟨"Add", by decide, Text.forall_mem_of_all (by decide), by decide⟩] true
  first := ⟨[' '], ['\x7b'], by decide⟩
  others := [⟨"\n  ", "Add", by decide⟩, ⟨[], [','], by decide⟩, ⟨['\n'], ['\x7d'], by decide⟩]
  beforeFrom := [' ']
  beforeModule := [' ']
  quote := '"'
  module := "./add"
  tokens_eq := by decide
  blank_beforeFrom := by decide
  blank_beforeModule := by decide
  parted := by decide
  isQuote_quote := by decide
  module_ne_nil := by decide
  unquoted_module := by decide

def badge : Text :=
  "import \x7b\n  Add,\n\x7d from \"./add\";\n\n" ++
  "export default function Badge() \x7b\n" ++
  "  return <div data-component-id=\"badge\">badge</div>;\n" ++
  "\x7d\n"

theorem spread_overlooked : spread.StandsIn badge ∧ classify badge = .stub := by
  refine ⟨⟨[], [], badge.drop spread.text.length, by decide, rfl, by simp⟩, by decide⟩

end Declaration

end Component.Completeness

end CanvasLift
