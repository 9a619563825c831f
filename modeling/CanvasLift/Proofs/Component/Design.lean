import CanvasLift.Proofs.Component.Declarations
import Mathlib.Data.List.DropRight

namespace CanvasLift.Component

open Declaration
open Canvas (isNameChar not_mem_of_isNameChar)

structure Design where
  name : Text
  glyphs : List Text
  usesSubComponent : Bool
  props : List Text
  body : Text
  deriving DecidableEq

namespace Declaration

def namedImports : Declaration → List Text
  | importNamed names _ => names
  | _ => []

def isDefaultImport : Declaration → Bool
  | importDefault _ _ => true
  | _ => false

def functionName? : Declaration → Option Text
  | exportFunction name => some name
  | _ => none

end Declaration

namespace Design

def opensFunction (line : Text) : Bool := ((ofLine? line).bind functionName?).isSome

def propEnding : Text := "?: " ++ propType ++ ";"

def propOf? (line : Text) : Option Text :=
  (Text.dropFront? "  " line).map (List.rdrop · propEnding.length)

def unindented (line : Text) : Text :=
  if Text.allBlank line then line else line.drop bodyIndent.length

def closingLines : List Text := ["  );", "\x7d", []]

/-- The body, from the lines below the two that open the function. -/
def bodyOf (below : List Text) : Text :=
  Text.unlines ((below.rdrop closingLines.length).map unindented)

def ofSource? (module : Text) : Option Design := do
  let found := declarations module
  let name ← found.findSome? functionName?
  let above := (Text.lines module).takeWhile (!opensFunction ·)
  let below := (Text.lines module).drop (above.length + 2)
  return ⟨name, found.flatMap namedImports, found.any isDefaultImport, above.filterMap propOf?,
    bodyOf below⟩

variable {id body name line : Text} {props : List Text} {deps : Dependencies}

theorem propOf?_eq_some (prop : Text) : propOf? ("  " ++ prop ++ propEnding) = some prop := by
  have hline : Text.dropFront? ("  " : Text) ("  " ++ prop ++ propEnding) = some (prop ++ propEnding) :=
    Text.dropFront?_eq_some_iff.2 (List.append_assoc _ _ _)
  rw [propOf?, hline, Option.map_some, List.rdrop, List.length_append, Nat.add_sub_cancel,
    List.take_left]

theorem propOf?_eq_none (h : line.head? ≠ some ' ') : propOf? line = none := by
  rw [propOf?, Option.map_eq_none_iff]
  cases hfront : Text.dropFront? "  " line with
  | none => rfl
  | some rest =>
    rw [Text.dropFront?_eq_some_iff] at hfront
    exact absurd (congrArg List.head? hfront) h

theorem props_importLines (deps : Dependencies) : (importLines deps).filterMap propOf? = [] := by
  have hglyphs : (glyphImport deps.glyphs).head? = some 'i' := rfl
  have hnone : propOf? (glyphImport deps.glyphs) = none :=
    propOf?_eq_none (hglyphs ▸ by decide)
  rw [importLines, List.filterMap_append, List.append_eq_nil_iff]
  constructor
  · split
    · rfl
    · rw [List.filterMap_cons_none hnone]
      rfl
  · split <;> decide

theorem props_propLines (name : Text) (props : List Text) :
    (propLines name props).filterMap propOf? = props := by
  have hline : ∀ prop : Text, propOf? ("  " ++ prop ++ "?: " ++ propType ++ ";") = some prop := by
    intro prop
    rw [List.append_assoc, List.append_assoc, ← List.append_assoc "?: ".toList]
    exact propOf?_eq_some prop
  have hhead : ("export interface " ++ name ++ "Props \x7b").head? = some 'e' := rfl
  have hopen : propOf? ("export interface " ++ name ++ "Props \x7b") = none :=
    propOf?_eq_none (hhead ▸ by decide)
  have hclose : [['\x7d'], []].filterMap propOf? = [] := by decide
  rw [propLines]
  split
  · next hprops => rw [hprops]; rfl
  · rw [List.cons_append, List.filterMap_cons_none hopen, List.filterMap_append, List.filterMap_map,
      hclose, List.append_nil]
    exact (List.filterMap_congr fun prop _ ↦ hline prop).trans List.filterMap_some

def linesAbove (id : Text) (props : List Text) (deps : Dependencies) : List Text :=
  [clientDirective, []] ++ importLines deps ++ propLines (Identifier.componentName id) props

theorem props_linesAbove : (linesAbove id props deps).filterMap propOf? = props := by
  have hfirst : [clientDirective, []].filterMap propOf? = [] := by decide
  rw [linesAbove, List.filterMap_append, List.filterMap_append, hfirst, props_importLines,
    props_propLines]
  rfl

theorem opensFunction_above (h : ∀ glyph ∈ deps.glyphs, ∀ c ∈ glyph, isNameChar c = true) :
    ∀ line ∈ linesAbove id props deps, opensFunction line = false := by
  have hdeclared : (linesAbove id props deps).filterMap ofLine? =
      (if deps.glyphs = [] then [] else [.importNamed deps.glyphs glyphModule]) ++
        (if deps.usesSubComponent then [.importDefault subComponent subComponentModule] else []) ++
        if props = [] then [] else [.exportInterface (Identifier.componentName id ++ "Props")] := by
    have hfirst : [clientDirective, []].filterMap ofLine? = [] := filterMap_eq_nil (by decide)
    rw [linesAbove, List.filterMap_append, List.filterMap_append, hfirst, filterMap_importLines h,
      filterMap_propLines fun _ ↦ isNameChar_of_mem_componentName]
    rfl
  intro line hline
  rw [opensFunction, Option.isSome_eq_false_iff, Option.isNone_iff_eq_none, Option.bind_eq_none_iff]
  intro d hd
  have hmem : d ∈ (linesAbove id props deps).filterMap ofLine? := List.mem_filterMap.2 ⟨line, hline, hd⟩
  rw [hdeclared] at hmem
  simp only [List.mem_append, List.mem_ite_nil_left, List.mem_ite_nil_right, List.mem_singleton] at hmem
  obtain (⟨-, rfl⟩ | ⟨-, rfl⟩) | ⟨-, rfl⟩ := hmem <;> rfl

def openingLine (id parameters : Text) : Text :=
  "export default function " ++ Identifier.componentName id ++ "(" ++ parameters ++ ") \x7b"

theorem opensFunction_openingLine (id parameters : Text) :
    opensFunction (openingLine id parameters) = true := by
  have hname : ∀ c ∈ Identifier.componentName id, isNameChar c = true := fun _ ↦
    isNameChar_of_mem_componentName
  have hline : ofLine? (openingLine id parameters) =
      some (.exportFunction (Identifier.componentName id)) := by
    unfold openingLine
    rw [List.append_assoc, List.append_assoc, List.append_assoc]
    exact ofLine?_function hname _
  rw [opensFunction, hline]
  rfl

theorem lines_source_eq (id body : Text) (hprops : ∀ prop ∈ props, '\n' ∉ prop)
    (hglyphs : ∀ glyph ∈ deps.glyphs, ∀ c ∈ glyph, isNameChar c = true) :
    Text.lines (source id body props deps) = linesAbove id props deps ++
      openingLine id (parameters (Identifier.componentName id) props) :: "  return (".toList ::
        (bodyLines body ++ closingLines) := by
  have hbreak : ∀ glyph ∈ deps.glyphs, '\n' ∉ glyph := fun glyph hglyph ↦
    not_mem_of_isNameChar (hglyphs glyph hglyph) (by decide)
  rw [lines_source hprops hbreak, sourceLines, linesAbove, closingLines, List.append_assoc,
    List.append_assoc, List.append_assoc]
  rfl

theorem unindented_bodyLines (hbody : body ≠ []) :
    (bodyLines body).map unindented = Text.lines body := by
  rw [bodyLines, if_neg hbody, List.map_map]
  have hline : ∀ line : Text,
      unindented (if Text.allBlank line then line else bodyIndent ++ line) = line := by
    intro line
    by_cases hblank : Text.allBlank line = true
    · rw [if_pos hblank, unindented, if_pos hblank]
    · have hindented : ¬ Text.allBlank (bodyIndent ++ line) = true := by
        rwa [Text.allBlank_append (List.all_eq_true.1 (by decide))]
      rw [if_neg hblank, unindented, if_neg hindented, List.drop_left]
  exact (List.map_congr_left fun line _ ↦ hline line).trans (List.map_id _)

theorem bodyOf_bodyLines (body : Text) : bodyOf (bodyLines body ++ closingLines) = body := by
  have hclosing : (bodyLines body ++ closingLines).rdrop closingLines.length = bodyLines body := by
    rw [List.rdrop, List.length_append, Nat.add_sub_cancel, List.take_left]
  rw [bodyOf, hclosing]
  by_cases hbody : body = []
  · rw [hbody]
    rfl
  · rw [unindented_bodyLines hbody, Text.unlines_lines]

theorem functionName?_declared (name : Text) (props : List Text) (deps : Dependencies) :
    (declared name props deps).findSome? functionName? = some name := by
  rw [declared]
  split <;> split <;> split <;> rfl

theorem namedImports_declared (name : Text) (props : List Text) (deps : Dependencies) :
    (declared name props deps).flatMap namedImports = deps.glyphs := by
  have hrest : ∀ found : List Declaration, (∀ d ∈ found, namedImports d = []) →
      found.flatMap namedImports = [] := fun _ ↦ List.flatMap_eq_nil_iff.2
  rw [declared, List.append_assoc, List.append_assoc, List.flatMap_append, hrest (_ ++ _), List.append_nil]
  · split
    · next hnone => exact hnone.symm
    · exact List.append_nil _
  · intro d hd
    simp only [List.mem_append, List.mem_ite_nil_left, List.mem_ite_nil_right, List.mem_singleton] at hd
    obtain ⟨-, rfl⟩ | ⟨-, rfl⟩ | rfl := hd <;> rfl

theorem isDefaultImport_declared (name : Text) (props : List Text) (deps : Dependencies) :
    (declared name props deps).any isDefaultImport = deps.usesSubComponent := by
  rw [Bool.eq_iff_iff, List.any_eq_true]
  constructor
  · rintro ⟨d, hd, hdefault⟩
    cases d with
    | importDefault bound origin => exact (importDefault_mem_declared.1 hd).1
    | importNamed names origin => cases hdefault
    | exportInterface name => cases hdefault
    | exportFunction name => cases hdefault
  · exact fun h ↦ ⟨_, importDefault_mem_declared.2 ⟨h, rfl, rfl⟩, rfl⟩

/-- Nothing of what a source is made from is lost in it. -/
theorem ofSource?_source (id body : Text) (hprops : ∀ prop ∈ props, '\n' ∉ prop)
    (hglyphs : deps.glyphs.Sublist glyphCatalog) :
    ofSource? (source id body props deps) =
      some ⟨Identifier.componentName id, deps.glyphs, deps.usesSubComponent, props, body⟩ := by
  have hletters : ∀ glyph ∈ deps.glyphs, ∀ c ∈ glyph, isNameChar c = true := fun _ hglyph ↦
    isNameChar_of_mem_catalog (hglyphs.subset hglyph)
  have hlines := lines_source_eq id body hprops hletters
  have habove : (Text.lines (source id body props deps)).takeWhile (!opensFunction ·) =
      linesAbove id props deps := by
    have hclosed : ∀ line ∈ linesAbove id props deps, (!opensFunction line) = true := fun line hline ↦
      Bool.not_eq_true' _ ▸ opensFunction_above hletters line hline
    rw [hlines, List.takeWhile_append_of_pos hclosed, List.takeWhile_cons, opensFunction_openingLine]
    exact List.append_nil _
  have hbelow : (Text.lines (source id body props deps)).drop ((linesAbove id props deps).length + 2) =
      bodyLines body ++ closingLines := by
    rw [hlines, List.drop_length_add_append]
    rfl
  rw [ofSource?, declarations_source hprops hletters]
  simp only [Option.bind_eq_bind, functionName?_declared, Option.bind_some, namedImports_declared,
    isDefaultImport_declared, habove, hbelow, props_linesAbove, bodyOf_bodyLines]
  rfl

/-- The lines of a body can be those of another source, and blank lines keep their blanks. -/
theorem ofSource?_source_of_lookalike :
    ofSource? (source "promo_tile" "\n      \n  );\n\x7d\n\nexport default function X() \x7b\n  return ("
        ["title", "label"] ⟨["Catalog", "Search"], true⟩) =
      some ⟨"PromoTile", ["Catalog", "Search"], true, ["title", "label"],
        "\n      \n  );\n\x7d\n\nexport default function X() \x7b\n  return ("⟩ := by
  have hname : Identifier.componentName "promo_tile" = "PromoTile" := by decide
  rw [← hname]
  exact ofSource?_source "promo_tile" _ (by decide) (by decide)

end Design

end CanvasLift.Component
