import CanvasLift.Proofs.Canvas.Markup
import CanvasLift.Proofs.Component.Source
import CanvasLift.Proofs.Text.Trim

/-!
What a module declares at its top level, read from its lines. The main statement is that the source of
a component declares its imports, the interface of its props if it has any, and its function, and
nothing else, whatever its body is.
-/

namespace CanvasLift.Component

open Canvas (isNameChar isBlank_of_isNameChar not_mem_of_isNameChar)

inductive Declaration
  | importNamed (names : List Text) (origin : Text)
  | importDefault (name origin : Text)
  | exportInterface (name : Text)
  | exportFunction (name : Text)
  deriving DecidableEq

namespace Declaration

def names : Declaration → List Text
  | .importNamed names _ => names
  | .importDefault name _ | .exportInterface name | .exportFunction name => [name]

def originOf? (t : Text) : Option Text :=
  (Text.dropFront? " from \"" t).bind fun rest ↦ (Text.cut? '"' rest).map Prod.fst

def importNamed? (t : Text) : Option Declaration := do
  let (inside, rest) ← Text.cut? '\x7d' t
  return .importNamed ((Text.splitOn ',' inside).map Text.trim) (← originOf? rest)

def importDefault? (t : Text) : Option Declaration :=
  (originOf? (t.dropWhile isNameChar)).map (.importDefault (t.takeWhile isNameChar))

/-- What a line declares that is not indented. -/
def ofLine? (line : Text) : Option Declaration :=
  match Text.dropFront? "import " line with
  | some ('\x7b' :: rest) => importNamed? rest
  | some rest => importDefault? rest
  | none =>
    match Text.dropFront? "export interface " line with
    | some rest => some (.exportInterface (rest.takeWhile isNameChar))
    | none =>
      (Text.dropFront? "export default function " line).map fun rest ↦
        .exportFunction (rest.takeWhile isNameChar)

/-- Whether a line starts like no declaration. -/
def isSilent (line : Text) : Bool := line.head?.all fun c ↦ c ≠ 'i' && c ≠ 'e'

theorem ofLine?_eq_none {line : Text} (h : isSilent line = true) : ofLine? line = none := by
  cases line with
  | nil => rfl
  | cons c rest =>
    obtain ⟨hi, he⟩ : c ≠ 'i' ∧ c ≠ 'e' := by simpa [isSilent] using h
    have himport : Text.dropFront? "import " (c :: rest) = none := if_neg hi.symm
    have hinterface : Text.dropFront? "export interface " (c :: rest) = none := if_neg he.symm
    have hfunction : Text.dropFront? "export default function " (c :: rest) = none :=
      if_neg he.symm
    rw [ofLine?, himport, hinterface, hfunction]
    rfl

theorem map_trim_splitOn {names : List Text} (hne : names ≠ [])
    (h : ∀ name ∈ names, ∀ c ∈ name, isNameChar c = true) :
    (Text.splitOn ',' (' ' :: (Text.joinWith ", " names ++ [' ']))).map Text.trim = names := by
  have hspace : ∀ c ∈ ([' '] : Text), Text.isBlank c = true := by
    intro c hc
    rw [List.mem_singleton.1 hc]
    decide
  induction names with
  | nil => exact absurd rfl hne
  | cons name names ih =>
    obtain ⟨hname, h⟩ := List.forall_mem_cons.1 h
    have hcomma : ',' ∉ name := not_mem_of_isNameChar hname (by decide)
    have hblank : ∀ c ∈ name, Text.isBlank c = false := fun c hc ↦
      isBlank_of_isNameChar (hname c hc)
    cases names with
    | nil =>
      rw [Text.joinWith_singleton, Text.splitOn_of_not_mem (by simpa using hcomma)]
      exact congrArg (· :: []) (Text.trim_eq_of_surrounded hspace hblank hspace)
    | cons next names =>
      have htrim : Text.trim (' ' :: name) = name := by
        have htrim := Text.trim_eq_of_surrounded hspace hblank (v := []) (by simp)
        rwa [List.append_nil] at htrim
      have hparts : ' ' :: (Text.joinWith ", " (name :: next :: names) ++ [' ']) =
          (' ' :: name) ++ ',' :: (' ' :: (Text.joinWith ", " (next :: names) ++ [' '])) := by
        rw [Text.joinWith_cons]
        simp
      rw [hparts, Text.splitOn_append_of_not_mem (by simpa using hcomma), List.map_cons, htrim,
        ih (List.cons_ne_nil _ _) h]

theorem ofLine?_glyphImport {names : List Text} (hne : names ≠ [])
    (h : ∀ name ∈ names, ∀ c ∈ name, isNameChar c = true) :
    ofLine? (glyphImport names) = some (.importNamed names glyphModule) := by
  let inside : Text := ' ' :: (Text.joinWith ", " names ++ [' '])
  let after : Text := (" from \"" : Text) ++ glyphModule ++ ("\";" : Text)
  have hline : glyphImport names = ("import " : Text) ++ '\x7b' :: (inside ++ '\x7d' :: after) := by
    -- Rewriting with the texts themselves would compare them letter by letter.
    have hparts : ∀ front back front' back' joined m tail : Text, front = front' ++ ['\x7b', ' '] →
        back = [' ', '\x7d'] ++ back' → front ++ joined ++ back ++ m ++ tail =
          front' ++ '\x7b' :: (' ' :: (joined ++ [' ']) ++ '\x7d' :: (back' ++ m ++ tail)) := by
      rintro _ _ front' back' joined m tail rfl rfl
      simp
    exact hparts _ _ _ _ _ _ _ (by decide) (by decide)
  have hbrace : '\x7d' ∉ inside := by
    have hname : ∀ name ∈ names, '\x7d' ∉ name := fun name hname ↦
      not_mem_of_isNameChar (h name hname) (by decide)
    have hnames : '\x7d' ∉ Text.joinWith ", " names := Text.not_mem_joinWith (by decide) hname
    simpa [inside] using hnames
  have horigin : originOf? after = some glyphModule := by decide
  rw [ofLine?, Text.dropFront?_eq_some_iff.2 hline]
  change importNamed? (inside ++ '\x7d' :: after) = _
  rw [importNamed?, Text.cut?_append_cons hbrace]
  simp only [Option.bind_eq_bind, Option.bind_some, horigin]
  exact congrArg (fun names ↦ some (Declaration.importNamed names glyphModule))
    (map_trim_splitOn hne h)

theorem ofLine?_subComponentImport :
    ofLine? subComponentImport = some (.importDefault subComponent subComponentModule) := by
  decide

theorem ofLine?_interface {name : Text} (h : ∀ c ∈ name, isNameChar c = true) (rest : Text) :
    ofLine? (("export interface " : Text) ++ (name ++ ' ' :: rest)) = some (.exportInterface name) := by
  have hname : (name ++ ' ' :: rest).takeWhile isNameChar = name := by
    rw [List.takeWhile_append_of_pos h, List.takeWhile_cons_of_neg (by decide), List.append_nil]
  exact congrArg (fun name ↦ some (Declaration.exportInterface name)) hname

theorem ofLine?_function {name : Text} (h : ∀ c ∈ name, isNameChar c = true) (rest : Text) :
    ofLine? (("export default function " : Text) ++ (name ++ '(' :: rest)) =
      some (.exportFunction name) := by
  have hname : (name ++ '(' :: rest).takeWhile isNameChar = name := by
    rw [List.takeWhile_append_of_pos h, List.takeWhile_cons_of_neg (by decide), List.append_nil]
  exact congrArg (fun name ↦ some (Declaration.exportFunction name)) hname

end Declaration

/-- What the lines of a module declare that are not indented, in order. Others are not read. -/
def declarations (module : Text) : List Declaration :=
  (Text.lines module).filterMap Declaration.ofLine?

/-- The names that a module binds on lines that are not indented. A name that an indented line binds at
the top level is not among them. -/
def boundNames (module : Text) : List Text := (declarations module).flatMap Declaration.names

def declared (name : Text) (props : List Text) (deps : Dependencies) : List Declaration :=
  (if deps.glyphs = [] then [] else [.importNamed deps.glyphs glyphModule]) ++
    (if deps.usesSubComponent then [.importDefault subComponent subComponentModule] else []) ++
    (if props = [] then [] else [.exportInterface (name ++ "Props")]) ++ [.exportFunction name]

theorem importNamed_mem_declared {name origin : Text} {names props : List Text}
    {deps : Dependencies} : .importNamed names origin ∈ declared name props deps ↔
      deps.glyphs ≠ [] ∧ names = deps.glyphs ∧ origin = glyphModule := by
  simp only [declared, List.mem_append, List.mem_ite_nil_left, List.mem_ite_nil_right,
    List.mem_singleton, Declaration.importNamed.injEq, reduceCtorEq, and_false, or_false]

theorem importDefault_mem_declared {name bound origin : Text} {props : List Text}
    {deps : Dependencies} : .importDefault bound origin ∈ declared name props deps ↔
      deps.usesSubComponent = true ∧ bound = subComponent ∧ origin = subComponentModule := by
  simp only [declared, List.mem_append, List.mem_ite_nil_left, List.mem_ite_nil_right,
    List.mem_singleton, Declaration.importDefault.injEq, reduceCtorEq, and_false, or_false,
    false_or]

section Lines

open Declaration

variable {id body name : Text} {props : List Text} {deps : Dependencies}

theorem filterMap_eq_nil {ls : List Text} (h : ls.all isSilent = true) :
    ls.filterMap ofLine? = [] :=
  List.filterMap_eq_nil_iff.2 fun line hline ↦ ofLine?_eq_none (List.all_eq_true.1 h line hline)

theorem filterMap_importLines (h : ∀ glyph ∈ deps.glyphs, ∀ c ∈ glyph, isNameChar c = true) :
    (importLines deps).filterMap ofLine? =
      (if deps.glyphs = [] then [] else [.importNamed deps.glyphs glyphModule]) ++
        if deps.usesSubComponent then [.importDefault subComponent subComponentModule] else [] := by
  rw [importLines, List.filterMap_append]
  congr 1
  · split
    · rfl
    · next hne => rw [List.filterMap_cons_some (ofLine?_glyphImport hne h)]; rfl
  · split
    · rw [List.filterMap_cons_some ofLine?_subComponentImport]; rfl
    · rfl

theorem filterMap_propLines (h : ∀ c ∈ name, isNameChar c = true) :
    (propLines name props).filterMap ofLine? =
      if props = [] then [] else [.exportInterface (name ++ "Props")] := by
  have hname : ∀ c ∈ name ++ ("Props" : Text), isNameChar c = true :=
    List.forall_mem_append.2 ⟨h, List.all_eq_true.1 (by decide)⟩
  rw [propLines]
  split
  · rfl
  · have hopen : ("export interface " : Text) ++ name ++ ("Props \x7b" : Text) =
        ("export interface " : Text) ++ (name ++ ("Props" : Text) ++ ' ' :: ['\x7b']) := by
      rw [List.append_assoc, List.append_assoc]
      rfl
    rw [List.cons_append, List.filterMap_cons_some (hopen ▸ ofLine?_interface hname _)]
    congr 1
    refine filterMap_eq_nil ?_
    rw [List.all_append, List.all_map, Bool.and_eq_true_iff]
    exact ⟨List.all_eq_true.2 fun prop _ ↦ rfl, rfl⟩

theorem filterMap_bodyLines : (bodyLines body).filterMap ofLine? = [] := by
  refine filterMap_eq_nil (List.all_eq_true.2 fun line hline ↦ ?_)
  obtain rfl | ⟨c, rest, rfl, hc⟩ := head_bodyLines hline
  · rfl
  · have hi : c ≠ 'i' := by
      rintro rfl
      exact absurd hc (by decide)
    have he : c ≠ 'e' := by
      rintro rfl
      exact absurd hc (by decide)
    simp [isSilent, hi, he]

theorem isNameChar_of_mem_componentName {c : Char}
    (h : c ∈ Identifier.componentName id) : isNameChar c = true :=
  Bool.or_eq_true_iff.2 (.inl (Identifier.isAlphanum_of_mem_componentName h))

theorem isNameChar_of_mem_catalog {glyph : Text} (h : glyph ∈ glyphCatalog) :
    ∀ c ∈ glyph, isNameChar c = true := by
  have hcatalog : ∀ glyph ∈ glyphCatalog, glyph.all isNameChar = true := by decide
  exact List.all_eq_true.1 (hcatalog glyph h)

theorem declarations_source (hprops : ∀ prop ∈ props, '\n' ∉ prop)
    (hglyphs : ∀ glyph ∈ deps.glyphs, ∀ c ∈ glyph, isNameChar c = true) :
    declarations (source id body props deps) =
      declared (Identifier.componentName id) props deps := by
  have hname : ∀ c ∈ Identifier.componentName id, isNameChar c = true := fun _ ↦
    isNameChar_of_mem_componentName
  have hlines : Text.lines (source id body props deps) = sourceLines id body props deps ++ [[]] :=
    lines_source hprops fun glyph hglyph ↦
      not_mem_of_isNameChar (hglyphs glyph hglyph) (by decide)
  have hopening : ∀ rest : Text, ofLine? (("export default function " : Text) ++
      Identifier.componentName id ++ ("(" : Text) ++ rest ++ (") \x7b" : Text)) =
        some (.exportFunction (Identifier.componentName id)) := by
    intro rest
    rw [List.append_assoc, List.append_assoc, List.append_assoc]
    exact ofLine?_function hname _
  have hfunction : ∀ rest : Text, [("export default function " : Text) ++
      Identifier.componentName id ++ ("(" : Text) ++ rest ++ (") \x7b" : Text),
        ("  return (" : Text)].filterMap ofLine? =
          [.exportFunction (Identifier.componentName id)] := by
    intro rest
    rw [List.filterMap_cons_some (hopening rest), filterMap_eq_nil (by decide)]
  have hfirst : [clientDirective, []].filterMap ofLine? = [] := filterMap_eq_nil (by decide)
  have hlast : [("  );" : Text), ("\x7d" : Text)].filterMap ofLine? = [] := filterMap_eq_nil (by decide)
  rw [declarations, hlines, sourceLines, declared]
  rw [List.filterMap_append, List.filterMap_append, List.filterMap_append, List.filterMap_append,
    List.filterMap_append, List.filterMap_append, filterMap_importLines hglyphs,
    filterMap_propLines hname, filterMap_bodyLines, hfirst, hlast, hfunction]
  simp only [List.nil_append, List.append_nil, List.append_assoc]
  rfl

end Lines

end CanvasLift.Component
