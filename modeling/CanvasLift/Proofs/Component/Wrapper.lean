import CanvasLift.Component.Completeness
import CanvasLift.Proofs.Component.Source
import CanvasLift.Proofs.Pattern.Match
import Mathlib.Tactic.ByContra

/-!
The check for completeness on the source of a component. The main statement is that what surrounds
the body in a source neither makes it a placeholder nor hides one: a source is taken for a stub
exactly where its body holds a placeholder and nothing in it shows a full interface.
-/

namespace CanvasLift.Component.Completeness

open Pattern

/-- A returned element up to the end of a line. The stubs differ in what may be in its tag and its
content. -/
def stubWith (middle : List Pattern) : Pattern :=
  chain (literal "return" :: many Text.isBlank :: literal "<div" :: (middle ++ [closing]))

def Ending (t : Text) : Prop :=
  ∃ u m v, t = u ++ (m ++ v) ∧ (∀ c ∈ u, Text.isBlank c = true) ∧ (m = [';'] ∨ m = []) ∧
    ∀ c ∈ v, Text.isBlank c = true

/-- A stub with what it takes for the inside of its element. -/
structure Shape (middle : List Pattern) (blanks inside ending taken : Text) : Prop where
  eq : taken = "return" ++ (blanks ++ ("<div" ++ (inside ++ ("</div>" ++ ending))))
  blank : ∀ c ∈ blanks, Text.isBlank c = true
  inside : (chain middle).Takes none inside []
  ending : Ending ending

variable {middle : List Pattern} {last : Option Char} {front back body taken rest t u v w : Text}

theorem Ending.of_append (h : Ending (u ++ v)) : Ending u := by
  obtain ⟨a, m, b, heq, ha, hm, hb⟩ := h
  rcases List.append_eq_append_iff.1 heq with ⟨x, rfl, -⟩ | ⟨x, rfl, hx⟩
  · exact ⟨u, [], [], by simp, fun c hc ↦ ha c (List.mem_append_left x hc), .inr rfl, by simp⟩
  · -- The rest of `u` is a part of the semicolon and the blanks after it.
    cases x with
    | nil => exact ⟨a, [], [], rfl, ha, .inr rfl, by simp⟩
    | cons c x =>
      rcases hm with rfl | rfl
      · obtain ⟨rfl, hb'⟩ := List.cons.inj hx
        obtain rfl : b = x ++ v := hb'
        exact ⟨a, [';'], x, rfl, ha, .inl rfl, fun c hc ↦ hb c (List.mem_append_left v hc)⟩
      · obtain rfl : b = c :: x ++ v := hx
        exact ⟨a, [], c :: x, rfl, ha, .inr rfl, fun d hd ↦ hb d (List.mem_append_left v hd)⟩

theorem takes_closing_iff : closing.Takes last taken rest ↔
    (∃ ending, taken = "</div>" ++ ending ∧ Ending ending) ∧
      rest.head?.all (· = '\n') = true := by
  constructor
  · rintro ⟨tag, _, rfl, htag, a, _, rfl, ha, m, _, rfl, hm, b, _, rfl, hb, _, _, rfl, ⟨rfl, hend⟩, rfl⟩
    rw [takes_literal.1 htag]
    refine ⟨⟨_, rfl, a, m, b, by simp, ha, ?_, hb⟩, hend⟩
    exact (takes_optional.1 hm).imp_left takes_literal.1
  · rintro ⟨⟨_, rfl, a, m, b, rfl, ha, hm, hb⟩, hend⟩
    refine takes_chain_append (takes_literal.2 rfl) (takes_chain_append ha ?_)
    refine takes_chain_append (takes_optional.2 (hm.imp_left takes_literal.2)) ?_
    rw [← List.append_nil b]
    exact takes_chain_append hb (takes_chain_singleton ⟨rfl, hend⟩)

theorem takes_stubWith_iff (hmiddle : (chain middle).isPlain = true) :
    (stubWith middle).Takes last taken rest ↔
      (∃ blanks inside ending, Shape middle blanks inside ending taken) ∧
        rest.head?.all (· = '\n') = true := by
  constructor
  · rintro ⟨word, _, rfl, hword, blanks, _, rfl, hblank, tag, _, rfl, htag, h⟩
    obtain ⟨inside, _, rfl, hinside, hclosing⟩ := takes_chain_split.1 h
    obtain ⟨_, _, rfl, hclosing, rfl⟩ := hclosing
    obtain ⟨⟨ending, rfl, hending⟩, hend⟩ := takes_closing_iff.1 hclosing
    rw [takes_literal.1 hword, takes_literal.1 htag]
    exact ⟨⟨blanks, inside, ending, by simp, hblank, hinside.of_isPlain hmiddle, hending⟩, hend⟩
  · rintro ⟨⟨blanks, inside, ending, rfl, hblank, hinside, hending⟩, hend⟩
    refine takes_chain_append (takes_literal.2 rfl) (takes_chain_append hblank ?_)
    refine takes_chain_append (takes_literal.2 rfl) (takes_chain_split.2 ?_)
    refine ⟨inside, _, rfl, hinside.of_isPlain hmiddle, takes_chain_singleton ?_⟩
    exact takes_closing_iff.2 ⟨⟨ending, rfl, hending⟩, hend⟩

theorem Ending.exists_of_append_eq (h : Ending u) (hend : rest.head?.all (· = '\n') = true)
    (heq : v ++ back = u ++ rest) :
    ∃ ending rest, v = ending ++ rest ∧ Ending ending ∧ rest.head?.all (· = '\n') = true := by
  rcases List.append_eq_append_iff.1 heq with ⟨x, rfl, -⟩ | ⟨x, rfl, rfl⟩
  · exact ⟨v, [], by simp, h.of_append, rfl⟩
  · refine ⟨u, x, rfl, h, ?_⟩
    cases x with
    | nil => rfl
    | cons c x => exact hend

theorem exists_of_open (hfront : '<' ∉ front) (hw : '(' ∉ w)
    (h : front ++ '(' :: t = u ++ (w ++ '<' :: v)) :
    ∃ x, u = front ++ '(' :: x ∧ t = x ++ (w ++ '<' :: v) := by
  rcases List.append_eq_append_iff.1 h with ⟨x, rfl, hx⟩ | ⟨x, rfl, hx⟩
  · cases x with
    | nil =>
      cases w with
      | nil => cases hx
      | cons c w =>
        obtain ⟨rfl, -⟩ := List.cons.inj hx
        exact absurd List.mem_cons_self hw
    | cons c x =>
      obtain ⟨rfl, rfl⟩ := List.cons.inj hx
      exact ⟨x, rfl, rfl⟩
  · rcases List.append_eq_append_iff.1 hx with ⟨y, rfl, hy⟩ | ⟨y, rfl, hy⟩
    · cases y with
      | nil => cases hy
      | cons c y =>
        obtain ⟨rfl, -⟩ := List.cons.inj hy
        exact absurd (by simp) hfront
    · cases y with
      | nil => cases hy
      | cons c y =>
        obtain ⟨rfl, -⟩ := List.cons.inj hy
        exact absurd (by simp) hw

theorem exists_of_close (hback : '<' ∉ back) (hhead : ∀ c ∈ back.head?, c ∉ w)
    (h : body ++ back = u ++ '<' :: (w ++ v)) :
    ∃ x, body = u ++ '<' :: (w ++ x) ∧ x ++ back = v := by
  rcases List.append_eq_append_iff.1 h with ⟨x, rfl, rfl⟩ | ⟨x, rfl, hx⟩
  · exact absurd (by simp) hback
  · cases x with
    | nil =>
      obtain rfl : '<' :: (w ++ v) = back := hx
      exact absurd List.mem_cons_self hback
    | cons c x =>
      obtain ⟨rfl, hrest⟩ := List.cons.inj hx
      rcases List.append_eq_append_iff.1 hrest with ⟨y, rfl, rfl⟩ | ⟨y, rfl, rfl⟩
      · exact ⟨y, rfl, rfl⟩
      · cases y with
        | nil => exact ⟨[], by simp, rfl⟩
        | cons c y => exact absurd (by simp) (hhead c rfl)

/-- What surrounds a body in a source, seen from where the body starts. -/
structure Surrounds (front body back : Text) : Prop where
  front_open : '<' ∉ front
  back_open : '<' ∉ back
  back_head : ∀ c ∈ back.head?, c ∉ ['/', 'd', 'i', 'v', '>']
  back_break : body ≠ [] → back.head? = some '\n'

theorem Surrounds.exists_shape (h : Surrounds front body back) {start blanks inside ending : Text}
    (hshape : Shape middle blanks inside ending taken) (hend : rest.head?.all (· = '\n') = true)
    (heq : front ++ '(' :: '\n' :: (body ++ back) = start ++ (taken ++ rest)) :
    ∃ start ending taken rest, body = start ++ (taken ++ rest) ∧
      Shape middle blanks inside ending taken ∧ rest.head?.all (· = '\n') = true := by
  have hreturn : ("return" : Text) = 'r' :: ['e', 't', 'u', 'r', 'n'] := by decide
  have htag : ("<div" : Text) = '<' :: ['d', 'i', 'v'] := by decide
  have hclose : ("</div>" : Text) = '<' :: ['/', 'd', 'i', 'v', '>'] := by decide
  have hround : '(' ∉ ("return" : Text) ++ blanks := by
    refine List.not_mem_append (by decide) fun hmem ↦ ?_
    exact absurd (hshape.blank '(' hmem) (by decide)
  obtain ⟨x, rfl, hx⟩ := exists_of_open (t := '\n' :: (body ++ back)) (v := ['d', 'i', 'v'] ++
    (inside ++ ("</div>" ++ (ending ++ rest)))) h.front_open hround (by
      simpa only [hshape.eq, htag, List.append_assoc, List.cons_append] using heq)
  cases x with
  | nil =>
    rw [hreturn] at hx
    cases hx
  | cons c x =>
    rw [List.cons_append] at hx
    obtain ⟨-, hbody⟩ := List.cons.inj hx
    obtain ⟨y, hy, hrest⟩ := exists_of_close (u := x ++ ("return" ++ (blanks ++ ("<div" ++ inside))))
      (v := ending ++ rest) h.back_open h.back_head (by
        simpa only [hclose, htag, List.append_assoc, List.cons_append] using hbody)
    obtain ⟨ending', rest', rfl, hending, hend'⟩ := hshape.ending.exists_of_append_eq hend hrest
    refine ⟨x, ending', _, rest', ?_, ⟨rfl, hshape.blank, hshape.inside, hending⟩, hend'⟩
    simpa only [hclose, htag, List.append_assoc, List.cons_append] using hy

theorem Surrounds.occursIn_stubWith_iff (h : Surrounds front body back)
    (hmiddle : (chain middle).isPlain = true) :
    (stubWith middle).occursIn (front ++ '(' :: '\n' :: (body ++ back)) = true ↔
      (stubWith middle).occursIn body = true := by
  rw [occursIn_iff, occursIn_iff]
  constructor
  · rintro ⟨start, taken, rest, heq, htakes⟩
    obtain ⟨⟨blanks, inside, ending, hshape⟩, hend⟩ := (takes_stubWith_iff hmiddle).1 htakes
    obtain ⟨start', ending', taken', rest', hbody, hshape', hend'⟩ := h.exists_shape hshape hend heq
    exact ⟨start', taken', rest', hbody,
      (takes_stubWith_iff hmiddle).2 ⟨⟨blanks, inside, ending', hshape'⟩, hend'⟩⟩
  · rintro ⟨start, taken, rest, rfl, htakes⟩
    obtain ⟨⟨blanks, inside, ending, hshape⟩, hend⟩ := (takes_stubWith_iff hmiddle).1 htakes
    refine ⟨front ++ '(' :: '\n' :: start, taken, rest ++ back, by simp,
      (takes_stubWith_iff hmiddle).2 ⟨⟨blanks, inside, ending, hshape⟩, ?_⟩⟩
    cases rest with
    | cons c rest => exact hend
    | nil =>
      have hne : start ++ (taken ++ []) ≠ [] := by
        rw [hshape.eq]
        simp
      rw [List.nil_append, h.back_break hne]
      rfl

/-- A word without brackets and line breaks is not brought into a source by what is around the
body, if that has not all of its characters. -/
theorem infix_surrounded_iff {c : Char} (hround : '(' ∉ w) (hbreak : '\n' ∉ w) (hc : c ∈ w)
    (hfront : c ∉ front) (hback : c ∉ back) (hhead : body ≠ [] → back.head? = some '\n') :
    w <:+: front ++ '(' :: '\n' :: (body ++ back) ↔ w <:+: body := by
  rw [Text.infix_append_cons_iff hround, ← List.nil_append ('\n' :: _),
    Text.infix_append_cons_iff hbreak]
  constructor
  · rintro (h | h | h)
    · exact absurd (h.mem hc) hfront
    · exact absurd (h.mem hc) List.not_mem_nil
    · by_cases hbody : body = []
      · rw [hbody] at h
        exact absurd (h.mem hc) hback
      · obtain ⟨rest, rfl⟩ := List.head?_eq_some_iff.1 (hhead hbody)
        rcases (Text.infix_append_cons_iff hbreak).1 h with h | h
        · exact h
        · exact absurd (List.mem_cons_of_mem _ (h.mem hc)) hback
  · exact fun h ↦ .inr (.inr (h.trans (List.prefix_append body back).isInfix))

theorem surrounds_source (id : Text) (body : Text) {props : List Text} {deps : Dependencies}
    (hprops : ∀ prop ∈ props, '<' ∉ prop) (hglyphs : ∀ glyph ∈ deps.glyphs, '<' ∉ glyph) :
    Surrounds (Text.unlines (headLines id props deps)) (embedded body) (footer body) where
  front_open := by
    have himports := not_mem_importLines (by decide) hglyphs
    exact Text.not_mem_joinWith (by decide) (not_mem_headLines (by decide) hprops himports)
  back_open := by
    rw [footer]
    split <;> decide
  back_head := by
    have hhead : (footer body).head? = if body = [] then some ' ' else some '\n' := by
      rw [footer]
      split <;> decide
    rw [hhead]
    intro c hc
    split at hc <;> obtain rfl := Option.some.inj hc <;> decide
  back_break := by
    intro hne
    have hbody : body ≠ [] := by
      rintro rfl
      exact hne rfl
    rw [footer, if_neg hbody]
    decide

variable {id : Text} {props : List Text} {deps : Dependencies}

theorem exists_importLine {line : Text} (h : line ∈ importLines deps) :
    ∃ front rest, source id body props deps = front ++ '\n' :: (line ++ '\n' :: rest) := by
  obtain ⟨above, below, himports⟩ := List.append_of_mem h
  let name := Identifier.componentName id
  let tail : List Text := propLines name props ++
    [("export default function " : Text) ++ name ++ "(" ++ parameters name props ++ ") \x7b",
      "  return "]
  obtain ⟨next, more, hnext⟩ : ∃ next more, below ++ tail = next :: more :=
    List.exists_cons_of_ne_nil (by simp [tail])
  have hlines : headLines id props deps = [clientDirective, []] ++ above ++ (line :: next :: more) := by
    rw [← hnext]
    simp only [headLines, himports, tail, List.append_assoc, List.cons_append]
    rfl
  rw [source_eq, hlines, Text.unlines_append (by simp) (by simp), Text.unlines_cons]
  simp only [List.append_assoc, List.cons_append]
  exact ⟨_, _, rfl⟩

theorem icons_occursIn_source (h : deps.glyphs ≠ []) :
    (literal "@carbon/icons-react").occursIn (source id body props deps) = true := by
  have hline : glyphImport deps.glyphs ∈ importLines deps := by
    rw [importLines, if_neg h]
    exact List.mem_append_left _ List.mem_cons_self
  obtain ⟨front, rest, hsource⟩ := exists_importLine hline
  have hmodule : glyphModule <:+: glyphImport deps.glyphs :=
    (List.suffix_append _ glyphModule).isInfix.trans (List.prefix_append _ _).isInfix
  rw [hsource, occursIn_literal]
  refine hmodule.trans ?_
  exact ⟨front ++ ['\n'], '\n' :: rest, by simp⟩

theorem imports_occursIn_source (h : deps.usesSubComponent = true) :
    importDeclaration.occursIn (source id body props deps) = true := by
  have hline : subComponentImport ∈ importLines deps := by
    rw [importLines, if_pos h]
    exact List.mem_append_right _ List.mem_cons_self
  obtain ⟨front, rest, hsource⟩ := exists_importLine hline
  have hparts : subComponentImport = "import" ++ (" " ++ ("StackSidebar" ++ (" " ++ ("from" ++
      (" " ++ (['"'] ++ ("@/components/stack-sidebar" ++ (['"'] ++ [';'])))))))) := by decide
  have hblank : ∀ last rest, (run Text.isBlank).Takes last " " rest :=
    fun _ _ ↦ takes_run.2 ⟨by decide, List.all_eq_true.1 (by decide)⟩
  rw [hsource, occursIn_iff]
  refine ⟨front ++ ['\n'], "import" ++ (" " ++ ("StackSidebar" ++ (" " ++ ("from" ++ (" " ++
    (['"'] ++ ("@/components/stack-sidebar" ++ ['"']))))))), ';' :: '\n' :: rest, ?_, ?_⟩
  · rw [hparts]
    simp only [List.append_assoc, List.cons_append, List.nil_append]
  · refine takes_chain_skip ⟨rfl, by simp⟩ (takes_chain_skip takes_many_nil ?_)
    refine takes_chain_append (takes_literal.2 rfl) (takes_chain_append (hblank _ _) ?_)
    refine takes_chain_append (takes_run.2 ⟨by decide, List.all_eq_true.1 (by decide)⟩) ?_
    refine takes_chain_append (hblank _ _) ?_
    refine takes_chain_append (takes_literal.2 rfl) (takes_chain_append (hblank _ _) ?_)
    refine takes_chain_singleton (takes_chain_append ⟨'"', rfl, rfl⟩ ?_)
    refine takes_chain_append (takes_run.2 ⟨by decide, List.all_eq_true.1 (by decide)⟩) ?_
    exact takes_chain_singleton ⟨'"', rfl, rfl⟩

def footerLines : List Text := ["  );", ['\x7d'], []]

theorem exists_blank_of_lines {ls : List Text}
    (h : ∀ line ∈ ls, line = [] ∨ ∃ c rest, line = c :: rest ∧ Text.isBlank c = true) :
    ∃ c rest, Text.unlines (ls ++ footerLines) = c :: rest ∧ Text.isBlank c = true := by
  cases ls with
  | nil => exact ⟨' ', _, rfl, by decide⟩
  | cons line ls =>
    obtain ⟨next, more, hnext⟩ : ∃ next more, ls ++ footerLines = next :: more :=
      List.exists_cons_of_ne_nil (by simp [footerLines])
    rw [List.cons_append, hnext, Text.unlines_cons]
    rcases h line List.mem_cons_self with rfl | ⟨c, rest, rfl, hc⟩
    · exact ⟨'\n', _, rfl, by decide⟩
    · exact ⟨c, _, rfl, hc⟩

theorem embedded_append_footer (h : body ≠ []) :
    embedded body ++ footer body = Text.unlines (bodyLines body ++ footerLines) := by
  rw [Text.unlines_append (bodyLines_ne_nil h) (by simp [footerLines]), embedded, footer, if_neg h]
  congr 1

/-- A class attribute in the body has the indentation of the next line after its own, whatever
stands there. -/
theorem wideClasses_occursIn_source (h : "className=" <:+: body) :
    wideClasses.occursIn (source id body props deps) = true := by
  have hbody : body ≠ [] := by
    rintro rfl
    exact absurd (List.infix_nil.1 h) (by decide)
  rw [← infix_embedded_iff (by decide) (by decide)] at h
  obtain ⟨line, hline, p, q, hword⟩ := Text.infix_unlines (by decide) (bodyLines_ne_nil hbody) h
  obtain ⟨above, below, hlines⟩ := List.append_of_mem hline
  have hhead : ∀ line ∈ below, line = [] ∨ ∃ c rest, line = c :: rest ∧ Text.isBlank c = true :=
    fun line hmem ↦ head_bodyLines (by rw [hlines]; simp [hmem])
  obtain ⟨c, rest, hrest, hc⟩ := exists_blank_of_lines hhead
  obtain ⟨next, more, hnext⟩ : ∃ next more, below ++ footerLines = next :: more :=
    List.exists_cons_of_ne_nil (by simp [footerLines])
  obtain ⟨front, hfront⟩ := Text.exists_unlines_eq above line next more
  have hbreak : '\n' ∉ q := fun hmem ↦
    break_not_mem_bodyLines hline (hword ▸ List.mem_append_right _ hmem)
  rw [source_eq, embedded_append_footer hbody, hlines, List.append_assoc, List.cons_append, hnext,
    hfront, ← hnext, hrest, ← hword, occursIn_iff]
  refine ⟨Text.unlines (headLines id props deps) ++ '(' :: '\n' :: (front ++ p),
    "className=" ++ (q ++ (['\n'] ++ [c])), rest, by simp, ?_⟩
  refine takes_chain_append (takes_literal.2 rfl) (takes_chain_append (fun d hd ↦ ?_) ?_)
  · exact decide_eq_true fun heq ↦ hbreak (heq ▸ hd)
  · refine takes_chain_append ⟨'\n', rfl, by decide⟩ (takes_chain_singleton (takes_run.2 ?_))
    simpa using hc

theorem classify_eq_stub_iff : classify t = .stub ↔ marker.occursIn t = true ∧
    (∃ p ∈ stubs, p.occursIn t = true) ∧ ∀ p ∈ indicators, p.occursIn t = false := by
  rw [classify, ← List.any_eq_true]
  cases marker.occursIn t with
  | false => simp
  | true =>
    cases hstubs : stubs.any fun p ↦ p.occursIn t with
    | false => simp
    | true =>
      cases hindicators : indicators.any fun p ↦ p.occursIn t with
      | false => simpa using hindicators
      | true => simpa using hindicators

theorem stubs_eq : stubs =
    [stubWith [run Text.isBlank, literal "data-component-id=", quotedText, many (· ≠ '>'),
      literal ">", many Text.isBlank, many (· ≠ '<')],
     stubWith [many (· ≠ '>'), literal ">", many Text.isBlank, many fun c ↦ c ≠ '<' && c ≠ '\x7b']] :=
  rfl

theorem return_infix_of_stub {p : Pattern} (hp : p ∈ stubs) (h : p.occursIn t = true) :
    "return" <:+: t := by
  obtain ⟨middle, rfl⟩ : ∃ middle, p = stubWith middle := by
    rw [stubs_eq] at hp
    rcases List.mem_cons.1 hp with rfl | hp
    · exact ⟨_, rfl⟩
    · exact ⟨_, List.mem_singleton.1 hp⟩
  obtain ⟨front, _, rest, rfl, word, tail, rfl, hword, -⟩ := (occursIn_iff _ t).1 h
  rw [takes_literal.1 hword]
  exact ⟨front, tail ++ rest, by simp⟩

theorem classify_source_eq_stub_iff (hopen : ∀ prop ∈ props, '<' ∉ prop)
    (hdash : ∀ prop ∈ props, '-' ∉ prop) (hglyphs : ∀ glyph ∈ deps.glyphs, '<' ∉ glyph) :
    classify (source id body props deps) = .stub ↔
      "data-component-id" <:+: body ∧ (∃ p ∈ stubs, p.occursIn (embedded body) = true) ∧
        ∀ p ∈ indicators, p.occursIn (source id body props deps) = false := by
  have hsurrounds := surrounds_source id body hopen hglyphs
  have hstub : ∀ p ∈ stubs, p.occursIn (source id body props deps) = true ↔
      p.occursIn (embedded body) = true := by
    rw [source_eq, stubs_eq]
    simp only [List.forall_mem_cons, List.not_mem_nil, false_implies, implies_true, and_true]
    exact ⟨hsurrounds.occursIn_stubWith_iff (by decide),
      hsurrounds.occursIn_stubWith_iff (by decide)⟩
  rw [classify_eq_stub_iff, ← and_assoc, ← and_assoc]
  refine and_congr_left fun hnone ↦ and_congr ?_ (exists_congr fun p ↦ and_congr_right (hstub p))
  have hicons : deps.glyphs = [] := by
    by_contra hne
    have habsent := hnone (literal "@carbon/icons-react") (by simp [indicators])
    rw [icons_occursIn_source hne] at habsent
    cases habsent
  have hsub : deps.usesSubComponent = false := by
    by_contra hne
    have habsent := hnone importDeclaration (by simp [indicators])
    rw [imports_occursIn_source (by simpa using hne)] at habsent
    cases habsent
  have himports : ∀ line ∈ importLines deps, '-' ∉ line := by
    simp [importLines, hicons, hsub]
  have hfront : '-' ∉ Text.unlines (headLines id props deps) :=
    Text.not_mem_joinWith (by decide) (not_mem_headLines (by decide) hdash himports)
  have hback : '-' ∉ footer body := by
    rw [footer]
    split <;> decide
  have hembedded : "data-component-id" <:+: embedded body ↔ "data-component-id" <:+: body :=
    infix_embedded_iff (by decide) (by decide)
  rw [marker, occursIn_literal, source_eq, ← hembedded]
  exact infix_surrounded_iff (by decide) (by decide) (by decide) hfront hback hsurrounds.back_break

end CanvasLift.Component.Completeness
