import CanvasLift.Component.References
import CanvasLift.Proofs.Canvas.Guard
import CanvasLift.Proofs.Identifier
import CanvasLift.Proofs.Component.Replaced
import CanvasLift.Proofs.Text.Segments
import CanvasLift.Proofs.Text.Trim

namespace CanvasLift

namespace Component.References

open Pattern

/-- The parts of an import of one name from a path in quotes. -/
structure ImportStatement where
  indentation : Text
  afterImport : Text
  name : Text
  afterName : Text
  afterFrom : Text
  opening : Char
  path : Text
  closing : Char
  isPadding_of_mem : ∀ c ∈ indentation, Text.isPadding c = true
  afterImport_blank : afterImport ≠ [] ∧ ∀ c ∈ afterImport, Text.isBlank c = true
  name_solid : name ≠ [] ∧ ∀ c ∈ name, Text.isBlank c = false
  afterName_blank : afterName ≠ [] ∧ ∀ c ∈ afterName, Text.isBlank c = true
  afterFrom_blank : afterFrom ≠ [] ∧ ∀ c ∈ afterFrom, Text.isBlank c = true
  isQuote_opening : isQuote opening = true
  not_isQuote_of_mem : ∀ c ∈ path, isQuote c = false
  isQuote_closing : isQuote closing = true

namespace ImportStatement

def text (s : ImportStatement) : Text :=
  s.indentation ++ ("import" ++ (s.afterImport ++ (s.name ++ (s.afterName ++ ("from" ++
    (s.afterFrom ++ s.opening :: (s.path ++ [s.closing])))))))

theorem head_append {p : Char → Bool} {b : Bool} {u v : Text} (hne : u ≠ [])
    (h : ∀ c ∈ u, p c = b) : ∃ c ∈ (u ++ v).head?, p c = b := by
  obtain ⟨x, u, rfl⟩ := List.exists_cons_of_ne_nil hne
  exact ⟨x, rfl, h x List.mem_cons_self⟩

theorem text_inj {s s' : ImportStatement} {r r' : Text} (h : s.text ++ r = s'.text ++ r') :
    s = s' ∧ r = r' := by
  obtain ⟨i, b, n, b', b'', o, m, c, hi, hb, hn, hb', hb'', ho, hm, hc⟩ := s
  obtain ⟨i₁, b₁, n₁, b₁', b₁'', o₁, m₁, c₁, hi₁, hb₁, hn₁, hb₁', hb₁'', ho₁, hm₁, hc₁⟩ := s'
  have hquote : ∀ {c : Char}, isQuote c = true → Text.isBlank c = false := by
    intro c hc
    rcases (by simpa [isQuote] using hc : c = '\'' ∨ c = '"') with rfl | rfl <;> decide
  simp only [text, List.append_assoc, List.cons_append] at h
  obtain ⟨rfl, hword⟩ := Text.append_inj_of_head hi hi₁ ⟨'i', rfl, by decide⟩ ⟨'i', rfl, by decide⟩ h
  obtain ⟨rfl, hname⟩ := Text.append_inj_of_head hb.2 hb₁.2 (head_append hn.1 hn.2)
    (head_append hn₁.1 hn₁.2) (List.append_cancel_left hword)
  obtain ⟨rfl, hafter⟩ := @Text.append_inj_of_head (!Text.isBlank ·) _ _ _ _
    (by simpa using hn.2) (by simpa using hn₁.2) (head_append hb'.1 (by simpa using hb'.2))
    (head_append hb₁'.1 (by simpa using hb₁'.2)) hname
  obtain ⟨rfl, hfrom⟩ := Text.append_inj_of_head hb'.2 hb₁'.2 ⟨'f', rfl, by decide⟩
    ⟨'f', rfl, by decide⟩ hafter
  obtain ⟨rfl, hopening⟩ := Text.append_inj_of_head hb''.2 hb₁''.2 ⟨o, rfl, hquote ho⟩
    ⟨o₁, rfl, hquote ho₁⟩ (List.append_cancel_left hfrom)
  obtain ⟨rfl, hpath⟩ := List.cons.inj hopening
  obtain ⟨rfl, hclosing⟩ := @Text.append_inj_of_head (!isQuote ·) _ _ _ _
    (by simpa using hm) (by simpa using hm₁) ⟨c, rfl, by simpa using hc⟩ ⟨c₁, rfl, by simpa using hc₁⟩
    hpath
  obtain ⟨rfl, hrest⟩ := List.cons.inj hclosing
  exact ⟨rfl, hrest⟩

end ImportStatement

variable {id path taken rest front : Text} {last : Option Char}

theorem isQuote_of_isAllowed {c : Char} (h : Identifier.isAllowed c = true) : isQuote c = false := by
  rw [← Bool.not_eq_true]
  intro hquote
  rcases (by simpa [isQuote] using hquote : c = '\'' ∨ c = '"') with rfl | rfl <;>
    exact absurd h (by decide)

theorem isBlank_of_isWord {c : Char} (h : Text.isWord c = true) : Text.isBlank c = false := by
  rw [← Bool.not_eq_true]
  intro hblank
  rw [Canvas.isWord_of_isBlank hblank] at h
  cases h

/-- The segment that the id has in a module path, with the ending of a source file if it is the last. -/
def NamesModule (id segment : Text) (after : List Text) : Prop :=
  segment = id ∨
    after = [] ∧ ∃ ending ∈ (["tsx", "ts", "jsx", "js"] : List Text), segment = id ++ '.' :: ending

/-- Two segments of the path lead to the module: one that ends in `components`, and the next. -/
def LeadsTo (id path : Text) : Prop :=
  ∃ before first second after, path.splitOnP isSlash = before ++ first :: second :: after ∧
    ("components" : Text) <:+ first ∧ NamesModule id second after

theorem isSlash_ending : ∀ ending ∈ (["tsx", "ts", "jsx", "js"] : List Text),
    ∀ c ∈ ending, isSlash c = false := by
  have hall : ∀ ending ∈ (["tsx", "ts", "jsx", "js"] : List Text),
      ending.all (fun c ↦ decide (isSlash c = false)) = true := by decide
  exact fun ending hending ↦ Text.forall_mem_of_all (hall ending hending)

theorem isSlash_of_isAllowed {c : Char} (h : Identifier.isAllowed c = true) : isSlash c = false := by
  rw [← Bool.not_eq_true]
  intro hslash
  rcases (by simpa [isSlash] using hslash : c = '/' ∨ c = '\\') with rfl | rfl <;>
    exact absurd h (by decide)

theorem isQuote_of_isSlash {c : Char} (h : isSlash c = true) : isQuote c = false := by
  rcases (by simpa [isSlash] using h : c = '/' ∨ c = '\\') with rfl | rfl <;> decide

def EndsModule (tail : Text) : Prop :=
  tail = [] ∨ (∃ slash more, tail = slash :: more ∧ isSlash slash = true) ∨
    ∃ ending ∈ (["tsx", "ts", "jsx", "js"] : List Text), tail = '.' :: ending

theorem takes_modulePath_iff (hid : ∀ c ∈ id, isQuote c = false) :
    (modulePath id).Takes last path rest ↔ (∀ c ∈ path, isQuote c = false) ∧
      ∃ before slash tail, path = before ++ (("components" : Text) ++ slash :: (id ++ tail)) ∧
        isSlash slash = true ∧ EndsModule tail := by
  constructor
  · rintro ⟨before, _, rfl, hbefore, word, _, rfl, hword, _, _, rfl, ⟨slash, rfl, hslash⟩, named, _, rfl,
      hnamed, tail, _, rfl, htail, rfl⟩
    rw [takes_literal.1 hword, takes_literal.1 hnamed]
    have hends : (∀ c ∈ tail, isQuote c = false) ∧ EndsModule tail := by
      rcases htail with (⟨_, _, rfl, ⟨slash', rfl, hslash'⟩, more, _, rfl, hmore, rfl⟩ |
        ⟨dot, _, rfl, hdot, ending, _, rfl, hending, rfl⟩) | rfl
      · refine ⟨?_, .inr (.inl ⟨slash', more, by simp, hslash'⟩)⟩
        simp only [List.append_nil, List.singleton_append, List.forall_mem_cons]
        exact ⟨isQuote_of_isSlash hslash', fun c hc ↦ by simpa using hmore c hc⟩
      · rw [takes_literal.1 hdot]
        refine ⟨?_, .inr (.inr ⟨ending, takes_oneOf.1 hending, by simp⟩)⟩
        have hall : ∀ ending ∈ (["tsx", "ts", "jsx", "js"] : List Text),
            ('.' :: ending).all (fun c ↦ decide (isQuote c = false)) = true := by decide
        simpa using Text.forall_mem_of_all (hall ending (takes_oneOf.1 hending))
      · exact ⟨by simp, .inl rfl⟩
    refine ⟨?_, before, slash, tail, by simp, hslash, hends.2⟩
    have hdirectory : ∀ c ∈ ("components" : Text), isQuote c = false :=
      Text.forall_mem_of_all (by decide)
    intro c hc
    simp only [List.mem_append, List.mem_singleton, List.append_nil] at hc
    rcases hc with hc | hc | rfl | hc | hc
    · simpa using hbefore c hc
    · exact hdirectory c hc
    · exact isQuote_of_isSlash hslash
    · exact hid c hc
    · exact hends.1 c hc
  · rintro ⟨hquote, before, slash, tail, rfl, hslash, htail⟩
    have hnot : ∀ u : Text, u ⊆ before ++ (("components" : Text) ++ slash :: (id ++ tail)) →
        ∀ c ∈ u, (!isQuote c) = true := by
      intro u hu c hc
      rw [hquote c (hu hc)]
      rfl
    refine takes_chain_append (hnot before (List.subset_append_left _ _))
      (takes_chain_append (takes_literal.2 rfl) (takes_chain_append (u := [slash]) ⟨slash, rfl, hslash⟩
        (takes_chain_append (takes_literal.2 rfl) (takes_chain_singleton ?_))))
    rcases htail with rfl | ⟨slash', more, rfl, hslash'⟩ | ⟨ending, hending, rfl⟩
    · exact .inr rfl
    · refine .inl (.inl (takes_chain_append (u := [slash']) ⟨slash', rfl, hslash'⟩
        (takes_chain_singleton (hnot more ?_))))
      intro c hc
      simp [hc]
    · exact .inl (.inr (takes_chain_append (u := ['.']) (takes_literal.2 rfl)
        (takes_chain_singleton (takes_oneOf.2 hending))))

theorem namesModule_iff (hid : ∀ c ∈ id, isSlash c = false) {t : Text} :
    (∃ tail, t = id ++ tail ∧ EndsModule tail) ↔
      ∃ second after, t.splitOnP isSlash = second :: after ∧ NamesModule id second after := by
  constructor
  · rintro ⟨tail, rfl, rfl | ⟨slash, more, rfl, hslash⟩ | ⟨ending, hending, rfl⟩⟩
    · rw [List.append_nil]
      exact ⟨id, [], List.splitOnP_eq_singleton hid, .inl rfl⟩
    · exact ⟨id, _, List.splitOnP_append_cons_of_forall_mem hid slash hslash more, .inl rfl⟩
    · refine ⟨_, [], List.splitOnP_eq_singleton ?_, .inr ⟨rfl, ending, hending, rfl⟩⟩
      intro c hc
      rcases List.mem_append.1 hc with hc | hc
      · exact hid c hc
      · rcases List.mem_cons.1 hc with rfl | hc
        · decide
        · exact isSlash_ending ending hending c hc
  · rintro ⟨second, after, hsplit, rfl | ⟨rfl, ending, hending, rfl⟩⟩
    · cases after with
      | nil => exact ⟨[], by rw [(Text.eq_of_splitOnP_eq_singleton hsplit).1, List.append_nil], .inl rfl⟩
      | cons x after =>
        obtain ⟨u, slash, v, rfl, hslash, hu, -⟩ := Text.exists_eq_of_splitOnP_eq_append
          (show t.splitOnP isSlash = [second] ++ x :: after from hsplit) (by simp) (by simp)
        rw [(Text.eq_of_splitOnP_eq_singleton hu).1]
        exact ⟨slash :: v, rfl, .inr (.inl ⟨slash, v, rfl, hslash⟩)⟩
    · exact ⟨'.' :: ending, (Text.eq_of_splitOnP_eq_singleton hsplit).1,
        .inr (.inr ⟨ending, hending, rfl⟩)⟩

theorem leadsTo_iff (hid : ∀ c ∈ id, isSlash c = false) : LeadsTo id path ↔ ∃ before slash tail,
    path = before ++ (("components" : Text) ++ slash :: (id ++ tail)) ∧ isSlash slash = true ∧
      EndsModule tail := by
  constructor
  · rintro ⟨before, first, second, after, hsplit, ⟨more, rfl⟩, hnames⟩
    obtain ⟨u, slash, v, rfl, hslash, hu, hv⟩ := Text.exists_eq_of_splitOnP_eq_append
      (show path.splitOnP isSlash = (before ++ [more ++ "components"]) ++ second :: after by
        simpa using hsplit) (by simp) (by simp)
    obtain ⟨front, rfl⟩ :=
      (List.suffix_append more "components".toList).trans (Text.suffix_of_splitOnP hu)
    obtain ⟨tail, rfl, htail⟩ := (namesModule_iff hid).2 ⟨second, after, hv, hnames⟩
    exact ⟨front, slash, tail, by simp, hslash, htail⟩
  · rintro ⟨before, slash, tail, rfl, hslash, htail⟩
    obtain ⟨second, after, hsplit, hnames⟩ := (namesModule_iff hid).1 ⟨tail, rfl, htail⟩
    obtain ⟨front, first, hfirst, hsuffix⟩ :=
      @Text.exists_splitOnP_append isSlash "components" (Text.forall_mem_of_all (by decide)) before
    refine ⟨front, first, second, after, ?_, hsuffix, hnames⟩
    rw [← List.append_assoc, List.splitOnP_append_cons _ _ hslash, hfirst, hsplit, List.append_assoc,
      List.singleton_append]

def IsEnding (ending : Text) : Prop :=
  ∃ mark spaces lineBreak, ending = mark ++ (spaces ++ lineBreak) ∧ (mark = [';'] ∨ mark = []) ∧
    (∀ c ∈ spaces, Text.isPadding c = true) ∧
    (lineBreak = ['\n'] ∨ lineBreak = ['\r', '\n'] ∨ lineBreak = [])

theorem takes_ending_iff :
    (chain [optional (literal ";"), padding, optional (chain [optional (literal "\r"), literal "\n"])]).Takes
      last taken rest ↔ IsEnding taken := by
  constructor
  · rintro ⟨mark, _, rfl, hmark, spaces, _, rfl, hspaces, lineBreak, _, rfl, hbreak, rfl⟩
    refine ⟨mark, spaces, lineBreak, by simp, hmark.imp takes_literal.1 fun h ↦ h, hspaces, ?_⟩
    rcases hbreak with ⟨back, _, rfl, hback, line, _, rfl, hline, rfl⟩ | rfl
    · rw [takes_literal.1 hline]
      rcases hback with hback | rfl
      · rw [takes_literal.1 hback]
        exact .inr (.inl rfl)
      · exact .inl rfl
    · exact .inr (.inr rfl)
  · rintro ⟨mark, spaces, lineBreak, rfl, hmark, hspaces, hbreak⟩
    refine takes_chain_append (hmark.imp takes_literal.2 fun h ↦ h)
      (takes_chain_append hspaces (takes_chain_singleton ?_))
    rcases hbreak with rfl | rfl | rfl
    · exact .inl (takes_chain_skip (.inr rfl) (takes_chain_singleton (takes_literal.2 rfl)))
    · exact .inl (takes_chain_append (u := ['\r']) (.inl (takes_literal.2 rfl))
        (takes_chain_singleton (takes_literal.2 rfl)))
    · exact .inr rfl

theorem takes_defaultImport_iff (hid : ∀ c ∈ id, Identifier.isAllowed c = true) :
    (defaultImport id).Takes last taken rest ↔ ∃ s : ImportStatement, ∃ ending,
      taken = s.text ++ ending ∧ (∀ c ∈ last, c = '\n') ∧ IsName s.name ∧ LeadsTo id s.path ∧
        IsEnding ending := by
  have hslash : ∀ c ∈ id, isSlash c = false := fun c hc ↦ isSlash_of_isAllowed (hid c hc)
  have hquote : ∀ c ∈ id, isQuote c = false := fun c hc ↦ isQuote_of_isAllowed (hid c hc)
  constructor
  · rintro ⟨_, _, rfl, ⟨rfl, hline⟩, indentation, _, rfl, hindentation, word, _, rfl, hword,
      b, _, rfl, hb, name, _, rfl, hname, b', _, rfl, hb', word', _, rfl, hword', b'', _, rfl, hb'',
      _, _, rfl, ⟨opening, rfl, hopening⟩, path, _, rfl, hpath, _, ending, rfl,
      ⟨closing, rfl, hclosing⟩, hending⟩
    have hname := takes_run.1 hname
    obtain ⟨hpath, hleads⟩ := (takes_modulePath_iff hquote).1 hpath
    let s : ImportStatement :=
      { indentation, afterImport := b, name, afterName := b', afterFrom := b'', opening, path, closing,
        isPadding_of_mem := hindentation, afterImport_blank := takes_run.1 hb,
        name_solid := ⟨hname.1, fun c hc ↦ isBlank_of_isWord (hname.2 c hc)⟩,
        afterName_blank := takes_run.1 hb', afterFrom_blank := takes_run.1 hb'',
        isQuote_opening := hopening, not_isQuote_of_mem := hpath, isQuote_closing := hclosing }
    refine ⟨s, ending, ?_, by simpa [Option.all_eq_true] using hline, hname.2,
      (leadsTo_iff hslash).2 hleads, takes_ending_iff.1 hending⟩
    rw [takes_literal.1 hword, takes_literal.1 hword']
    simp [s, ImportStatement.text]
  · rintro ⟨s, ending, rfl, hline, hname, hleads, hending⟩
    have htext : s.text ++ ending = s.indentation ++ ("import" ++ (s.afterImport ++ (s.name ++
        (s.afterName ++ ("from" ++ (s.afterFrom ++ ([s.opening] ++ (s.path ++ ([s.closing] ++
          ending))))))))) := by simp [ImportStatement.text]
    rw [htext]
    refine takes_chain_skip ⟨rfl, by simpa [Option.all_eq_true] using hline⟩
      (takes_chain_append s.isPadding_of_mem
      (takes_chain_append (takes_literal.2 rfl) (takes_chain_append (takes_run.2 s.afterImport_blank)
      (takes_chain_append (takes_run.2 ⟨s.name_solid.1, hname⟩)
      (takes_chain_append (takes_run.2 s.afterName_blank)
      (takes_chain_append (takes_literal.2 rfl) (takes_chain_append (takes_run.2 s.afterFrom_blank)
      (takes_chain_append ⟨s.opening, rfl, s.isQuote_opening⟩ (takes_chain_append ?_
      (takes_chain_append ⟨s.closing, rfl, s.isQuote_closing⟩ (takes_ending_iff.2 hending)))))))))))
    exact (takes_modulePath_iff hquote).2 ⟨s.not_isQuote_of_mem, (leadsTo_iff hslash).1 hleads⟩

theorem ImportStatement.text_ne_nil (s : ImportStatement) : s.text ≠ [] := by
  simp [ImportStatement.text]

theorem isEnding_nil : IsEnding [] := ⟨[], [], [], rfl, .inr rfl, by simp, .inr (.inr rfl)⟩

theorem replaceUses_eq_nil_iff {name t : Text} : replaceUses name t = [] ↔ t = [] := by
  cases t with
  | nil => simp [replaceUses, replace, pieces, piecesAfter]
  | cons x t =>
    rw [replaceUses, replace, pieces]
    rcases piecesAfter_cases (selfClosing name) none x t with ⟨-, hkept⟩ | ⟨_, _, _, -, -, -, hhit⟩
    · simp [hkept]
    · simp [hhit, emptyExpression]

theorem replaceAllUses_eq_nil_iff {names : List Text} {t : Text} :
    replaceAllUses names t = [] ↔ t = [] := by
  induction names generalizing t with
  | nil => exact Iff.rfl
  | cons name names ih => exact ih.trans replaceUses_eq_nil_iff

section

variable (hid : ∀ c ∈ id, Identifier.isAllowed c = true) (s : ImportStatement)
include hid

theorem eq_of_takes {more : Text} (heq : s.text ++ rest = taken ++ more)
    (h : (defaultImport id).Takes last taken more) :
    IsName s.name ∧ LeadsTo id s.path ∧
      ∃ ending, taken = s.text ++ ending ∧ rest = ending ++ more ∧ IsEnding ending := by
  obtain ⟨s', ending, rfl, -, hname, hleads, hending⟩ := (takes_defaultImport_iff hid).1 h
  rw [List.append_assoc] at heq
  obtain ⟨rfl, hrest⟩ := ImportStatement.text_inj heq
  exact ⟨hname, hleads, ending, rfl, hrest, hending⟩

theorem takes_statement (hlast : ∀ c ∈ last, c = '\n') (hname : IsName s.name)
    (hleads : LeadsTo id s.path) : (defaultImport id).Takes last s.text rest :=
  (takes_defaultImport_iff hid).2 ⟨s, [], (List.append_nil _).symm, hlast, hname, hleads, isEnding_nil⟩

theorem exists_hits_iff (hline : ∀ c ∈ front.getLast?, c = '\n') :
    (∃ ending more, rest = ending ++ more ∧ IsEnding ending ∧
        (defaultImport id).Hits front (s.text ++ ending) (front ++ (s.text ++ rest))) ↔
      (defaultImport id).PartsAt front (front ++ (s.text ++ rest)) ∧ IsName s.name ∧
        LeadsTo id s.path := by
  constructor
  · rintro ⟨ending, more, -, -, hhits⟩
    obtain ⟨more, heq, htakes⟩ := hhits.takes
    obtain ⟨hname, hleads, -⟩ := eq_of_takes hid s heq htakes
    exact ⟨hhits.partsAt, hname, hleads⟩
  · rintro ⟨hparts, hname, hleads⟩
    obtain ⟨part, hhits⟩ := hparts.exists_hits
      (fun last rest hnil ↦ List.not_mem_nil (mem_of_takes_defaultImport hnil))
      (takes_statement hid s (by rwa [lastOver_none]) hname hleads)
    obtain ⟨more, heq, htakes⟩ := hhits.takes
    obtain ⟨-, -, ending, rfl, hrest, hending⟩ := eq_of_takes hid s heq htakes
    exact ⟨ending, more, hrest, hending, hhits⟩

theorem strip_eq_nil_iff : strip id s.text = [] ↔ IsName s.name ∧ LeadsTo id s.path := by
  rw [strip_eq, replaceAllUses_eq_nil_iff, erase, replace, pieces]
  obtain ⟨x, t, htext⟩ := List.exists_cons_of_ne_nil s.text_ne_nil
  rw [htext]
  rcases piecesAfter_cases (defaultImport id) none x t with
    ⟨hnone, hkept⟩ | ⟨taken, more, captured, heq, -, htakes, hhit⟩
  · constructor
    · intro herase
      simp [hkept] at herase
    · rintro ⟨hname, hleads⟩
      have hstatement : (defaultImport id).Takes none s.text [] :=
        takes_statement hid s (by simp) hname hleads
      have hnil := hnone s.text [] (by rw [List.append_nil, htext]) hstatement
      exact absurd (mem_of_takes_defaultImport hnil) List.not_mem_nil
  · rw [← htext, ← List.append_nil s.text] at heq
    obtain ⟨hname, hleads, ending, -, hending, -⟩ := eq_of_takes hid s heq htakes
    obtain ⟨-, rfl⟩ := List.append_eq_nil_iff.1 hending.symm
    rw [hhit]
    simp [piecesAfter, hname, hleads]

end

/-- Behind the start of a line an import statement goes, with what stands behind it on its line, if and
only if no match reaches over the place, it binds one name, and its path has the id in a segment of its
own next after one that ends in `components`. -/
theorem import_removed_iff (hid : ∀ c ∈ id, Identifier.isAllowed c = true) (s : ImportStatement) :
    (∀ front rest : Text, (∀ c ∈ front.getLast?, c = '\n') →
      ((∃ ending more, rest = ending ++ more ∧ IsEnding ending ∧
          (defaultImport id).Hits front (s.text ++ ending) (front ++ (s.text ++ rest))) ↔
        (defaultImport id).PartsAt front (front ++ (s.text ++ rest)) ∧ IsName s.name ∧
          LeadsTo id s.path)) ∧
    (strip id s.text = [] ↔ IsName s.name ∧ LeadsTo id s.path) :=
  ⟨fun _ _ hline ↦ exists_hits_iff hid s hline, strip_eq_nil_iff hid s⟩

def cardImport : ImportStatement where
  indentation := ""
  afterImport := " "
  name := "Card"
  afterName := " "
  afterFrom := " "
  opening := '"'
  path := "@/components/card"
  closing := '"'
  isPadding_of_mem := Text.forall_mem_of_all (by decide)
  afterImport_blank := ⟨by decide, Text.forall_mem_of_all (by decide)⟩
  name_solid := ⟨by decide, Text.forall_mem_of_all (by decide)⟩
  afterName_blank := ⟨by decide, Text.forall_mem_of_all (by decide)⟩
  afterFrom_blank := ⟨by decide, Text.forall_mem_of_all (by decide)⟩
  isQuote_opening := by decide
  not_isQuote_of_mem := Text.forall_mem_of_all (by decide)
  isQuote_closing := by decide

theorem import_removed_iff_of_card :
    (∀ c ∈ ("card" : Text), Identifier.isAllowed c = true) ∧
      strip "card" "import Card from \"@/components/card\"" = [] := by
  have hid : ∀ c ∈ ("card" : Text), Identifier.isAllowed c = true :=
    Text.forall_mem_of_all (by decide)
  have hname : ∀ c ∈ ("Card" : Text), Text.isWord c = true := Text.forall_mem_of_all (by decide)
  have hleads : LeadsTo "card" "@/components/card" :=
    ⟨["@"], "components", "card", [], by decide, List.suffix_rfl, .inl rfl⟩
  exact ⟨hid, (import_removed_iff hid cardImport).2.2 ⟨hname, hleads⟩⟩

/-- A directory whose name ends in `components` is taken for the directory of the components. -/
theorem foreign_import_removed :
    strip "card" "import Card from \"./my-components/card\";\n" = [] := by
  decide

end Component.References

end CanvasLift
