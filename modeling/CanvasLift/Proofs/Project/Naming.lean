import CanvasLift.Proofs.Component.Uses
import CanvasLift.Proofs.Project.Extraction
import Mathlib.Data.List.Nodup

namespace CanvasLift

namespace Component

def Declaration.origin? : Declaration → Option Text
  | .importNamed _ origin | .importDefault _ origin => some origin
  | .exportInterface _ | .exportFunction _ => none

def moduleOf (id : Text) : Text := "@/components/" ++ id

def ImportsItself (id module : Text) : Prop :=
  ∃ d ∈ declarations module, d.origin? = some (moduleOf id)

def importedNames (deps : Dependencies) : List Text :=
  deps.glyphs ++ if deps.usesSubComponent then [subComponent] else []

variable {name body id : Text} {props : List Text} {deps : Dependencies}

theorem flatMap_names_declared :
    (declared name props deps).flatMap Declaration.names =
      importedNames deps ++ (if props = [] then [] else [name ++ "Props"]) ++ [name] := by
  have hglyphs : ((if deps.glyphs = [] then [] else [.importNamed deps.glyphs glyphModule]) :
      List Declaration).flatMap Declaration.names = deps.glyphs := by
    split
    · next hnil => rw [hnil]; rfl
    · exact List.append_nil _
  have hsub : ((if deps.usesSubComponent then [.importDefault subComponent subComponentModule]
      else []) : List Declaration).flatMap Declaration.names =
        if deps.usesSubComponent then [subComponent] else [] := by
    split <;> rfl
  have hprops : ((if props = [] then [] else [.exportInterface (name ++ "Props")]) :
      List Declaration).flatMap Declaration.names =
        if props = [] then [] else [name ++ "Props"] := by
    split <;> rfl
  rw [declared, List.flatMap_append, List.flatMap_append, List.flatMap_append, hglyphs, hsub, hprops,
    importedNames]
  rfl

theorem mem_importedNames_iff :
    name ∈ importedNames (.ofBody body) ↔
      name ∈ knownSymbols ∧ (openTag name).occursIn body = true := by
  rw [importedNames, List.mem_append, Dependencies.ofBody, List.mem_filter, List.mem_ite_nil_right,
    List.mem_singleton, knownSymbols, List.mem_cons]
  constructor
  · rintro (⟨hmem, huse⟩ | ⟨huse, rfl⟩)
    · exact ⟨.inr hmem, huse⟩
    · exact ⟨.inl rfl, huse⟩
  · rintro ⟨rfl | hmem, huse⟩
    · exact .inr ⟨huse, rfl⟩
    · exact .inl ⟨hmem, huse⟩

theorem nodup_importedNames (body : Text) : (importedNames (.ofBody body)).Nodup := by
  have hcatalog : glyphCatalog.Nodup := by decide
  have hsub : subComponent ∉ glyphCatalog := by decide
  refine List.nodup_append.2 ⟨List.Nodup.filter _ hcatalog, ?_, ?_⟩
  · split
    · exact List.nodup_singleton _
    · exact List.nodup_nil
  · intro glyph hglyph other hother
    obtain ⟨-, hother⟩ := List.mem_ite_nil_right.1 hother
    rw [List.mem_singleton.1 hother]
    rintro rfl
    exact hsub (List.mem_filter.1 hglyph).1

theorem propsName_not_mem (name body : Text) :
    name ++ ("Props" : Text) ∉ importedNames (.ofBody body) := by
  have hknown : ∀ symbol ∈ knownSymbols, ¬ ("Props" : Text) <:+ symbol := by decide
  exact fun h ↦ hknown _ (mem_importedNames_iff.1 h).1 (List.suffix_append _ _)

theorem nodup_concat_iff {ts : List Text} {t : Text} : (ts ++ [t]).Nodup ↔ t ∉ ts ∧ ts.Nodup := by
  rw [List.nodup_append_comm, List.singleton_append, List.nodup_cons]

theorem nodup_names_iff :
    (importedNames (.ofBody body) ++ (if props = [] then [] else [name ++ ("Props" : Text)]) ++
      [name]).Nodup ↔ name ∉ importedNames (.ofBody body) := by
  have himported := nodup_importedNames body
  have hne : name ≠ name ++ ("Props" : Text) := by
    intro h
    have hlength := congrArg List.length h
    rw [List.length_append] at hlength
    have hprops : ("Props" : Text).length = 5 := rfl
    omega
  split
  · rw [List.append_nil, nodup_concat_iff]
    exact and_iff_left himported
  · rw [nodup_concat_iff, nodup_concat_iff, List.mem_append, List.mem_singleton, not_or]
    constructor
    · exact fun h ↦ h.1.1
    · exact fun hname ↦ ⟨⟨hname, hne⟩, propsName_not_mem name body, himported⟩

theorem importsItself_declared_iff :
    (∃ d ∈ declared name props deps, d.origin? = some (moduleOf id)) ↔
      id = "stack-sidebar".toList ∧ deps.usesSubComponent = true := by
  have hglyph : glyphModule ≠ moduleOf id := by
    intro h
    have hsecond : glyphModule[1]? = some '/' := by
      rw [h]
      rfl
    exact absurd hsecond (by decide)
  have hsplit : subComponentModule = ("@/components/" : Text) ++ ("stack-sidebar" : Text) := by decide
  have hsub : subComponentModule = moduleOf id ↔ id = "stack-sidebar".toList := by
    constructor
    · exact fun h ↦ (List.append_cancel_left (hsplit.symm.trans h)).symm
    · rintro rfl
      exact hsplit
  constructor
  · rintro ⟨d, hd, horigin⟩
    cases d with
    | importNamed names origin =>
      obtain ⟨-, -, rfl⟩ := importNamed_mem_declared.1 hd
      exact absurd (Option.some.inj horigin) hglyph
    | importDefault bound origin =>
      obtain ⟨huses, -, rfl⟩ := importDefault_mem_declared.1 hd
      exact ⟨hsub.1 (Option.some.inj horigin), huses⟩
    | exportInterface bound => cases horigin
    | exportFunction bound => cases horigin
  · rintro ⟨hid, huses⟩
    refine ⟨_, importDefault_mem_declared.2 ⟨huses, rfl, rfl⟩, ?_⟩
    exact congrArg some (hsub.2 hid)

end Component

namespace Extraction

open Component

variable {t : Tree} {id : Text} {document : Path} {e : Extraction}

/-- The names that an extracted module binds are the symbols of the canvas whose tags open in its
body, each once, the interface of its props, if it has any, and its function. A name is bound twice
exactly where the component is named like a symbol that its body uses, and so where the module imports
itself, which only that of the shared sub-component can do. -/
theorem boundNames_nodup_iff (h : ofTree t id document = .ok e) :
    let name := Identifier.componentName id
    let imported := importedNames (.ofBody e.markup.body)
    boundNames e.source = imported ++
        (if e.markup.props = [] then [] else [name ++ ("Props" : Text)]) ++ [name] ∧
      (∀ symbol, symbol ∈ imported ↔
        symbol ∈ knownSymbols ∧ (openTag symbol).occursIn e.markup.body = true) ∧
      ((boundNames e.source).Nodup ↔
        ¬ (name ∈ knownSymbols ∧ (openTag name).occursIn e.markup.body = true)) ∧
      (ImportsItself id e.source ↔ id = "stack-sidebar".toList ∧ subComponent ∈ imported) ∧
      (ImportsItself id e.source → ¬ (boundNames e.source).Nodup) := by
  intro name imported
  obtain ⟨payload, -, hmarkup, hsource⟩ := exists_payload_of_ofTree h
  have hprops : ∀ prop ∈ e.markup.props, '\n' ∉ prop := by
    rw [hmarkup]
    exact fun prop hprop ↦
      Canvas.not_mem_of_isNameChar (Canvas.isNameChar_of_mem_props hprop) (by decide)
  have hdeclared : declarations e.source =
      declared name e.markup.props (.ofBody e.markup.body) := by
    rw [hsource, sourceOfPayload, ← hmarkup]
    exact declarations_source hprops isNameChar_of_mem_glyphs
  have hbound : boundNames e.source = imported ++
      (if e.markup.props = [] then [] else [name ++ ("Props" : Text)]) ++ [name] := by
    rw [boundNames, hdeclared]
    exact flatMap_names_declared
  have hitself : ImportsItself id e.source ↔ id = "stack-sidebar".toList ∧ subComponent ∈ imported := by
    rw [ImportsItself, hdeclared, importsItself_declared_iff, mem_importedNames_iff]
    exact and_congr_right fun _ ↦ (and_iff_right List.mem_cons_self).symm
  have hnodup : (boundNames e.source).Nodup ↔ name ∉ imported := by
    rw [hbound]
    exact nodup_names_iff
  refine ⟨hbound, fun symbol ↦ mem_importedNames_iff, ?_, hitself, fun h ↦ ?_⟩
  · rw [hnodup]
    exact not_congr mem_importedNames_iff
  · obtain ⟨rfl, hmem⟩ := hitself.1 h
    have hname : name = subComponent := by decide
    rw [hnodup, hname]
    exact fun hnot ↦ hnot hmem

def canvasWith (id body : Text) : Tree :=
  Tree.empty.set ["a"] (.file (Utf8.encode
    ("\x7bel.type === '" ++ id ++ "' ? (\n" ++ body ++ "\n) : (\n  null\n)\x7d")))

theorem boundNames_nodup_iff_of_card :
    let id : Text := "card"
    let name := Identifier.componentName id
    let document : Path := ⟨.root, ["a"]⟩
    ∃ e, ofTree (canvasWith id "<Add title={el.title} />") id document = .ok e ∧
      let imported := importedNames (.ofBody e.markup.body)
      boundNames e.source = imported ++
          (if e.markup.props = [] then [] else [name ++ ("Props" : Text)]) ++ [name] ∧
        (∀ symbol, symbol ∈ imported ↔
          symbol ∈ knownSymbols ∧ (openTag symbol).occursIn e.markup.body = true) ∧
        ((boundNames e.source).Nodup ↔
          ¬ (name ∈ knownSymbols ∧ (openTag name).occursIn e.markup.body = true)) ∧
        (ImportsItself id e.source ↔ id = "stack-sidebar".toList ∧ subComponent ∈ imported) ∧
        (ImportsItself id e.source → ¬ (boundNames e.source).Nodup) := by
  intro id name document
  obtain ⟨e, he⟩ : ∃ e, ofTree (canvasWith id "<Add title={el.title} />") id document = .ok e :=
    ⟨_, rfl⟩
  exact ⟨e, he, boundNames_nodup_iff he⟩

/-- The arm of the shared sub-component uses it, and its module imports itself under its own name. -/
theorem boundNames_not_nodup :
    let id : Text := "stack-sidebar"
    ∃ e, ofTree (canvasWith id "<StackSidebar />") id ⟨.root, ["a"]⟩ = .ok e ∧
      boundNames e.source = [subComponent, Identifier.componentName id] ∧
      Identifier.componentName id = subComponent ∧ ¬ (boundNames e.source).Nodup ∧
      ∃ d ∈ declarations e.source, d.origin? = some (moduleOf id) := by
  refine ⟨_, rfl, ?_⟩
  decide +kernel

end Extraction

end CanvasLift
