import CanvasLift.Proofs.Component.Placeholder
import CanvasLift.Proofs.Component.Uses
import CanvasLift.Proofs.Project.Extraction
import CanvasLift.Proofs.Project.Generation
import Mathlib

namespace CanvasLift

namespace Identifier

theorem map_toLower_capitalize (word : Text) :
    (capitalize word).map Char.toLower = word.map Char.toLower := by
  cases word with
  | nil => rfl
  | cons c rest => simp [capitalize]

theorem head?_flatMap_capitalize (words : List Text) :
    (words.flatMap capitalize).head? = words.flatten.head?.map Char.toUpper := by
  induction words with
  | nil => rfl
  | cons word words ih =>
    cases word with
    | nil => exact ih
    | cons c rest => rfl

theorem flatten_segments (t : Text) : (segments (sanitize t)).flatten = t.filter Char.isAlphanum := by
  let dashed (c : Char) : Char := if c = '_' then '-' else c
  have hkept : ∀ c : Char, (decide (dashed c ≠ '-') && isAllowed c) = c.isAlphanum := by
    intro c
    by_cases hline : c = '_'
    · subst hline
      rfl
    by_cases hdash : c = '-'
    · subst hdash
      rfl
    · simp [dashed, isAllowed, hline, hdash]
  have hsame : ∀ c ∈ t.filter Char.isAlphanum, dashed c = c := by
    intro c hc
    refine if_neg ?_
    rintro rfl
    exact absurd (List.mem_filter.1 hc).2 (by decide)
  calc (segments (sanitize t)).flatten
      = ((t.filter isAllowed).map dashed).filter (· ≠ '-') := Text.flatten_splitOn '-' _
    _ = (t.filter fun c ↦ decide (dashed c ≠ '-') && isAllowed c).map dashed := by
        rw [List.filter_map, List.filter_filter]
        rfl
    _ = (t.filter Char.isAlphanum).map dashed := by simp only [hkept]
    _ = t.filter Char.isAlphanum := (List.map_congr_left hsame).trans (List.map_id _)

theorem map_toLower_componentName (t : Text) :
    (componentName t).map Char.toLower = (t.filter Char.isAlphanum).map Char.toLower := by
  rw [componentName, List.map_flatMap, ← flatten_segments, List.map_flatten, List.flatMap_def]
  exact congrArg List.flatten (List.map_congr_left fun word _ ↦ map_toLower_capitalize word)

theorem componentName_eq_nil_iff {t : Text} :
    componentName t = [] ↔ ∀ c ∈ t, c.isAlphanum = false := by
  rw [← List.map_eq_nil_iff (f := Char.toLower), map_toLower_componentName, List.map_eq_nil_iff,
    List.filter_eq_nil_iff]
  simp only [Bool.not_eq_true]

theorem head?_componentName (t : Text) :
    (componentName t).head? = (t.find? Char.isAlphanum).map Char.toUpper := by
  rw [componentName, head?_flatMap_capitalize, flatten_segments, List.head?_filter]

theorem isAlphanum_eq_false_iff {c : Char} (h : isAllowed c = true) :
    c.isAlphanum = false ↔ c = '-' ∨ c = '_' := by
  rw [isAllowed, Bool.or_eq_true_iff, Bool.or_eq_true_iff, decide_eq_true_iff, decide_eq_true_iff] at h
  constructor
  · intro hnot
    obtain (halnum | hline) | hdash := h
    · rw [hnot] at halnum
      cases halnum
    · exact .inr hline
    · exact .inl hdash
  · rintro (rfl | rfl) <;> rfl

/-- A name that a function, an interface and a tag can have: letters and digits of ASCII, the first of
them a capital letter. -/
structure IsTagName (name : Text) : Prop where
  capital : ∃ c ∈ name.head?, c.isUpper = true
  isAlphanum : ∀ c ∈ name, c.isAlphanum = true

theorem isTagName_componentName_iff {t : Text} :
    IsTagName (componentName t) ↔ ∃ c ∈ t.find? Char.isAlphanum, c.isAlpha = true := by
  have hcapital : (∃ c ∈ (componentName t).head?, c.isUpper = true) ↔
      ∃ c ∈ t.find? Char.isAlphanum, c.isAlpha = true := by
    rw [head?_componentName]
    simp
  exact ⟨fun h ↦ hcapital.1 h.capital,
    fun h ↦ ⟨hcapital.2 h, fun _ ↦ isAlphanum_of_mem_componentName⟩⟩

theorem IsTagName.append {name tail : Text} (h : IsTagName name)
    (htail : ∀ c ∈ tail, c.isAlphanum = true) : IsTagName (name ++ tail) := by
  obtain ⟨c, hc, hupper⟩ := h.capital
  exact ⟨⟨c, by rw [List.head?_append, hc]; rfl, hupper⟩,
    List.forall_mem_append.2 ⟨h.isAlphanum, htail⟩⟩

end Identifier

namespace Component

open Identifier

def Declaration.exportedName? : Declaration → Option Text
  | .exportInterface name | .exportFunction name => some name
  | .importNamed _ _ | .importDefault _ _ => none

def exportedNames (module : Text) : List Text :=
  (declarations module).filterMap Declaration.exportedName?

variable {id body name : Text} {props : List Text} {deps : Dependencies}

theorem exportedNames_source (id body : Text) (hprops : ∀ prop ∈ props, '\n' ∉ prop)
    (hglyphs : ∀ glyph ∈ deps.glyphs, ∀ c ∈ glyph, Canvas.isNameChar c = true) :
    exportedNames (source id body props deps) =
      (if props = [] then [] else [componentName id ++ ("Props" : Text)]) ++ [componentName id] := by
  rw [exportedNames, declarations_source hprops hglyphs, declared]
  split <;> split <;> split <;> rfl

theorem forall_isTagName_iff : (∀ exported ∈
    (if props = [] then [] else [name ++ ("Props" : Text)]) ++ [name], IsTagName exported) ↔
      IsTagName name := by
  constructor
  · exact fun h ↦ h name (List.mem_append_right _ List.mem_cons_self)
  · intro h exported hmem
    rw [List.mem_append, List.mem_ite_nil_left, List.mem_singleton, List.mem_singleton] at hmem
    obtain ⟨-, rfl⟩ | rfl := hmem
    · exact h.append (List.all_eq_true.1 (by decide))
    · exact h

theorem exportedNames_stub (hid : ∀ c ∈ id, isAllowed c = true) :
    exportedNames (Template.stub id) = [componentName id] := by
  have hname : ∀ c ∈ componentName id, Canvas.isNameChar c = true := fun _ ↦
    isNameChar_of_mem_componentName
  have hheading : Declaration.ofLine? (Template.heading ++ (componentName id ++ Template.headingEnd)) =
      some (.exportFunction (componentName id)) := Declaration.ofLine?_function hname _
  let above : List Text := [Template.directive, [], Template.described ++ (id ++ Template.describedEnd),
    Template.hint ++ (id ++ Template.hintEnd)]
  let below : List Text :=
    [Template.returned ++ (id ++ (Template.tagEnd ++ (id ++ Template.returnedEnd))),
      Template.closingBrace, []]
  have habove : above.filterMap Declaration.ofLine? = [] := filterMap_eq_nil rfl
  have hbelow : below.filterMap Declaration.ofLine? = [] := filterMap_eq_nil rfl
  have hlines : Text.lines (Template.stub id) = above ++
      (Template.heading ++ (componentName id ++ Template.headingEnd)) :: below :=
    Template.lines_stub hid
  rw [exportedNames, declarations, hlines, List.filterMap_append, habove,
    List.filterMap_cons_some hheading, hbelow]
  rfl

end Component

namespace Generation

open Component Identifier

/-- What a generation writes exports the function of the component and at most the interface of its
props, unless the template is a curated one. -/
theorem exportedNames_sourceFor {given : Option Text} {id : Text} (host : Host) (s : Settings) (t : Tree)
    (hid : require given = .ok id) (hcurated : Template.curated? id = none) :
    exportedNames (sourceFor host s id t).1 = [componentName id] ∨
      exportedNames (sourceFor host s id t).1 =
        [componentName id ++ ("Props" : Text), componentName id] := by
  rw [sourceFor]
  cases hextracted : Extraction.ofTree t id (host.absolute s.sourceDocument) with
  | ok e =>
    obtain ⟨payload, -, -, hsource⟩ := Extraction.exists_payload_of_ofTree hextracted
    have hprops : ∀ prop ∈ (Canvas.Markup.ofBlock (Text.unlines payload)).props, '\n' ∉ prop :=
      fun prop hprop ↦
        Canvas.not_mem_of_isNameChar (Canvas.isNameChar_of_mem_props hprop) (by decide)
    change exportedNames e.source = _ ∨ exportedNames e.source = _
    rw [hsource, Extraction.sourceOfPayload, exportedNames_source id _ hprops isNameChar_of_mem_glyphs]
    split
    · exact .inl rfl
    · exact .inr rfl
  | error fault =>
    change exportedNames (Template.fallback id) = _ ∨ _
    rw [Template.fallback_eq_stub (require_of_require hid) hcurated]
    exact .inl (exportedNames_stub (isAllowed_of_require hid))

theorem componentTag_of_success {given : Json} {id : Text} (host : Host) (s : Settings) (t : Tree)
    (records : List Log.Record) (hid : require given.text? = .ok id)
    (hsuccess : ((run host s given).run ⟨t, records, none⟩).1.success = true) :
    ((run host s given).run ⟨t, records, none⟩).1.componentTag =
      some (.ofText ("<" ++ componentName id ++ " />")) := by
  have hrun := yields_run_of_ok host s t hid
  rw [hrun.value] at hsuccess ⊢
  cases houtcome : (outcome host s id t).1 with
  | ok origin => rfl
  | error fault =>
    rw [houtcome] at hsuccess
    cases hsuccess

/-- The name of a component has the letters and digits of its id in their order. There is one exactly
where the id has any, and it is that of a function, an interface and a tag exactly where the first of
them is a letter. Under this name, and that of its interface, everything is exported that a generation
writes, and the tag of a manifest is the one of that name. -/
theorem usable_iff {given : Json} {id : Text} (hid : require given.text? = .ok id) :
    let name := componentName id
    (∀ c ∈ name, c.isAlphanum = true) ∧
      name.map Char.toLower = (id.filter Char.isAlphanum).map Char.toLower ∧
      (name = [] ↔ ∀ c ∈ id, c = '-' ∨ c = '_') ∧
      (IsTagName name ↔ ∃ c ∈ id.find? Char.isAlphanum, c.isAlpha = true) ∧
      (∀ (body : Text) (props : List Text) (deps : Dependencies), (∀ prop ∈ props, '\n' ∉ prop) →
        deps.glyphs.Sublist glyphCatalog →
        exportedNames (source id body props deps) =
            (if props = [] then [] else [name ++ ("Props" : Text)]) ++ [name] ∧
          ((∀ exported ∈ exportedNames (source id body props deps), IsTagName exported) ↔
            IsTagName name)) ∧
      exportedNames (Template.stub id) = [name] ∧
      ∀ (host : Host) (s : Settings) (t : Tree) (records : List Log.Record),
        let m := ((run host s given).run ⟨t, records, none⟩).1
        let u := ((run host s given).run ⟨t, records, none⟩).2.tree
        m.success = true → m.componentTag = some (.ofText ("<" ++ name ++ " />")) ∧
          ∃ module d, Placed s id module t u d ∧ (Template.curated? id = none →
            exportedNames module = [name] ∨ exportedNames module = [name ++ ("Props" : Text), name]) := by
  intro name
  have hallowed : ∀ c ∈ id, isAllowed c = true := isAllowed_of_require hid
  have hempty : name = [] ↔ ∀ c ∈ id, c = '-' ∨ c = '_' := by
    rw [componentName_eq_nil_iff]
    exact forall₂_congr fun c hc ↦ isAlphanum_eq_false_iff (hallowed c hc)
  refine ⟨fun _ ↦ isAlphanum_of_mem_componentName, map_toLower_componentName id, hempty,
    isTagName_componentName_iff, fun body props deps hprops hglyphs ↦ ?_, exportedNames_stub hallowed,
    ?_⟩
  · have hnames := exportedNames_source id body hprops fun glyph hglyph ↦
      isNameChar_of_mem_catalog (hglyphs.subset hglyph)
    refine ⟨hnames, ?_⟩
    rw [hnames]
    exact forall_isTagName_iff
  · intro host s t records m u hsuccess
    obtain ⟨-, d, hplaced⟩ := exists_placed_of_success host s t records hid hsuccess
    exact ⟨componentTag_of_success host s t records hid hsuccess, _, d, hplaced,
      exportedNames_sourceFor host s t hid⟩

theorem usable_iff_of_tile :
    let host : Host := .withYaml ⟨.root, []⟩ [] []
    let s := Settings.defaults ⟨.root, []⟩
    let id : Text := "promo-tile"
    let given := Json.string (WideText.ofText id)
    let done := (run host s given).run ⟨.empty, [], none⟩
    (require given.text? = .ok id ∧ done.1.success = true) ∧ IsTagName (componentName id) ∧
      exportedNames (source id "<b />" ["size"] ⟨["Add"], true⟩) = ["PromoTileProps", "PromoTile"] ∧
      done.1.componentTag = some (.ofText "<PromoTile />") := by
  intro host s id given done
  have hid : require given.text? = .ok id := by decide
  have hsuccess : done.1.success = true := by decide +kernel
  have hname : componentName id = "PromoTile" := by decide
  obtain ⟨-, -, -, htag, hsource, -, hrun⟩ := usable_iff hid
  obtain ⟨hexported, -⟩ := hsource "<b />" ["size"] ⟨["Add"], true⟩ (by decide) (by decide)
  obtain ⟨hmanifest, -⟩ := hrun host s .empty [] hsuccess
  rw [hname] at hmanifest hexported
  exact ⟨⟨hid, hsuccess⟩, htag.2 ⟨'p', rfl, by decide⟩, hexported, hmanifest⟩

/-- Accepted ids can do without letters and digits, and then nothing is left for a name, or have a digit
before the first letter, and then the name starts with that digit. -/
theorem not_usable :
    require (some "-") = .ok "-" ∧ componentName "-" = [] ∧
      exportedNames (source "-" [] [] ⟨[], false⟩) = [[]] ∧
      require (some "2-col") = .ok "2-col" ∧ componentName "2-col" = "2Col" ∧
      exportedNames (Template.stub "2-col") = ["2Col"] ∧ ¬ IsTagName "2Col" := by
  refine ⟨by decide, by decide, by decide, by decide, by decide, by decide, fun h ↦ ?_⟩
  obtain ⟨c, hc, hupper⟩ := h.capital
  obtain rfl := Option.some.inj hc
  exact absurd hupper (by decide)

end Generation

end CanvasLift
