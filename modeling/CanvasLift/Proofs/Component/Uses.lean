import CanvasLift.Proofs.Component.Declarations
import CanvasLift.Proofs.Pattern.Match

namespace CanvasLift.Component

open Pattern

variable {id body name t : Text} {props : List Text} {deps : Dependencies}

def endsName (c : Char) : Bool := Text.isBlank c || c = '/' || c = '>'

theorem occursIn_openTag_iff :
    (openTag name).occursIn t = true ↔ ∃ c, endsName c = true ∧ '<' :: name ++ [c] <:+: t := by
  rw [occursIn_iff]
  constructor
  · rintro ⟨front, taken, rest, rfl, tag, _, rfl, htag, named, _, rfl, hnamed, _, _, rfl,
      ⟨c, rfl, hc⟩, rfl⟩
    rw [takes_literal.1 htag, takes_literal.1 hnamed]
    exact ⟨c, hc, front, rest, by simp⟩
  · rintro ⟨c, hc, front, rest, rfl⟩
    refine ⟨front, ['<'] ++ (name ++ [c]), rest, by simp, ?_⟩
    refine takes_chain_append (takes_literal.2 rfl) (takes_chain_append (takes_literal.2 rfl) ?_)
    exact takes_chain_singleton ⟨c, rfl, hc⟩

theorem occursIn_openTag_concat_iff :
    (openTag name).occursIn (t ++ ['\n']) = true ↔
      (openTag name).occursIn t = true ∨ '<' :: name <:+ t := by
  rw [occursIn_openTag_iff, occursIn_openTag_iff]
  constructor
  · rintro ⟨c, hc, h⟩
    obtain ⟨front, h⟩ | h := List.infix_concat_iff.1 h
    · rw [← List.append_assoc] at h
      obtain ⟨rfl, -⟩ := List.append_singleton_inj.1 h
      exact .inr ⟨front, rfl⟩
    · exact .inl ⟨c, hc, h⟩
  · rintro (⟨c, hc, h⟩ | ⟨front, rfl⟩)
    · exact ⟨c, hc, h.trans (List.prefix_append _ _).isInfix⟩
    · exact ⟨'\n', by decide, front, [], by simp⟩

theorem occursIn_openTag_unlines_iff (hname : '\n' ∉ name) {ls : List Text} (hls : ls ≠ []) :
    (openTag name).occursIn (Text.unlines ls ++ ['\n']) = true ↔
      ∃ line ∈ ls, (openTag name).occursIn (line ++ ['\n']) = true := by
  have hword : '\n' ∉ '<' :: name := List.not_mem_cons_of_ne_of_not_mem (by decide) hname
  simp only [occursIn_openTag_iff, Text.concat_infix_unlines_iff hword (List.cons_ne_nil _ _) hls]
  constructor
  · rintro ⟨c, hc, line, hline, h⟩
    exact ⟨line, hline, c, hc, h⟩
  · rintro ⟨line, hline, c, hc, h⟩
    exact ⟨c, hc, line, hline, h⟩

theorem not_occursIn_openTag (h : '<' ∉ t) : ¬ (openTag name).occursIn t = true := by
  intro hoccurs
  obtain ⟨c, -, hwithin⟩ := occursIn_openTag_iff.1 hoccurs
  exact h (hwithin.mem List.mem_cons_self)

theorem occursIn_openTag_indent_iff :
    (openTag name).occursIn (bodyIndent ++ t) = true ↔ (openTag name).occursIn t = true := by
  rw [occursIn_openTag_iff, occursIn_openTag_iff]
  exact exists_congr fun c ↦ and_congr_right fun _ ↦ infix_indent_iff (by simp) t

theorem exists_bodyLines_iff (hname : '\n' ∉ name) (hbody : body ≠ []) :
    (∃ line ∈ bodyLines body, (openTag name).occursIn (line ++ ['\n']) = true) ↔
      (openTag name).occursIn (body ++ ['\n']) = true := by
  have hline : ∀ line : Text,
      (openTag name).occursIn ((if Text.allBlank line then line else bodyIndent ++ line) ++ ['\n']) =
        true ↔ (openTag name).occursIn (line ++ ['\n']) = true := by
    intro line
    split
    · exact Iff.rfl
    · rw [List.append_assoc]
      exact occursIn_openTag_indent_iff
  have hlines : body ++ ['\n'] = Text.unlines (Text.lines body) ++ ['\n'] := by
    rw [Text.unlines_lines]
  have hne : Text.lines body ≠ [] := Text.splitOn_ne_nil '\n' body
  rw [hlines, occursIn_openTag_unlines_iff hname hne, bodyLines, if_neg hbody]
  constructor
  · rintro ⟨_, hmem, h⟩
    obtain ⟨line, hline', rfl⟩ := List.mem_map.1 hmem
    exact ⟨line, hline', (hline line).1 h⟩
  · rintro ⟨line, hline', h⟩
    exact ⟨_, List.mem_map_of_mem hline', (hline line).2 h⟩

theorem occursIn_openTag_source_iff (hname : '\n' ∉ name) (hprops : ∀ prop ∈ props, '<' ∉ prop)
    (hglyphs : ∀ glyph ∈ deps.glyphs, '<' ∉ glyph) :
    (openTag name).occursIn (source id body props deps) = true ↔
      (openTag name).occursIn body = true ∨ '<' :: name <:+ body := by
  have himports := not_mem_importLines (by decide) hglyphs
  have hhead : ∀ line ∈ headLines id props deps, '<' ∉ line :=
    not_mem_headLines (by decide) hprops himports
  have hround : ∀ line ∈ sourceLines id body props deps, line ∈ bodyLines body ∨
      ¬ (openTag name).occursIn (line ++ ['\n']) = true := by
    intro line hline
    obtain h | h | rfl | rfl | rfl := mem_sourceLines hline
    · exact .inr (not_occursIn_openTag (List.not_mem_append (hhead line h) (by decide)))
    · exact .inl h
    · exact .inr (not_occursIn_openTag (by decide))
    · exact .inr (not_occursIn_openTag (by decide))
    · exact .inr (not_occursIn_openTag (by decide))
  have hne : sourceLines id body props deps ≠ [] := by simp [sourceLines]
  have hlines : (openTag name).occursIn (source id body props deps) = true ↔
      ∃ line ∈ bodyLines body, (openTag name).occursIn (line ++ ['\n']) = true := by
    rw [source]
    refine (occursIn_openTag_unlines_iff hname hne).trans ⟨?_, ?_⟩
    · rintro ⟨line, hline, h⟩
      exact ⟨line, (hround line hline).resolve_right fun hnot ↦ hnot h, h⟩
    · rintro ⟨line, hline, h⟩
      exact ⟨line, by simp [sourceLines, hline], h⟩
  rw [hlines, ← occursIn_openTag_concat_iff]
  by_cases hbody : body = []
  · rw [hbody]
    constructor
    · rintro ⟨_, hline, -⟩
      cases hline
    · exact fun h ↦ absurd h (not_occursIn_openTag (by decide))
  · exact exists_bodyLines_iff hname hbody

def knownSymbols : List Text := subComponent :: glyphCatalog

theorem isNameChar_of_mem_glyphs :
    ∀ glyph ∈ (Dependencies.ofBody body).glyphs, ∀ c ∈ glyph, Canvas.isNameChar c = true :=
  fun _ hglyph ↦ isNameChar_of_mem_catalog (List.mem_filter.1 hglyph).1

theorem ofBody_source (hprops : ∀ prop ∈ props, '<' ∉ prop)
    (hbody : ∀ name ∈ knownSymbols, ¬ '<' :: name <:+ body) :
    Dependencies.ofBody (source id body props (.ofBody body)) = .ofBody body := by
  have hglyphs := not_mem_glyphs_ofBody (x := '<') (by decide) body
  have hnames : ∀ name ∈ knownSymbols, '\n' ∉ name := by decide
  have hsame : ∀ name ∈ knownSymbols,
      (openTag name).occursIn (source id body props (.ofBody body)) = (openTag name).occursIn body := by
    intro name hname
    rw [Bool.eq_iff_iff, occursIn_openTag_source_iff (hnames name hname) hprops hglyphs]
    exact or_iff_left (hbody name hname)
  rw [Dependencies.ofBody, hsame subComponent List.mem_cons_self]
  refine congrArg (Dependencies.mk · ((openTag subComponent).occursIn body)) ?_
  exact List.filter_congr fun name hname ↦ hsame name (List.mem_cons_of_mem _ hname)

/-- The imports of a source are exactly the symbols that it uses, whatever its id, its props and its
body are, unless the body breaks off in the name of one. -/
theorem imports_eq_uses (id body : Text) {props : List Text}
    (hprops : ∀ prop ∈ props, ∀ c ∈ prop, Canvas.isNameChar c = true)
    (hbody : ∀ name ∈ knownSymbols, ¬ '<' :: name <:+ body) :
    let deps := Dependencies.ofBody body
    let module := source id body props deps
    Dependencies.ofBody module = deps ∧
      (∀ glyph ∈ glyphCatalog,
        (∃ names, .importNamed names glyphModule ∈ declarations module ∧ glyph ∈ names) ↔
          (openTag glyph).occursIn module = true) ∧
      (.importDefault subComponent subComponentModule ∈ declarations module ↔
        (openTag subComponent).occursIn module = true) := by
  intro deps module
  have hletters : ∀ {c : Char}, Canvas.isNameChar c = false → ∀ prop ∈ props, c ∉ prop :=
    fun hc prop hprop ↦ Canvas.not_mem_of_isNameChar (hprops prop hprop) hc
  have hsame : Dependencies.ofBody module = deps := ofBody_source (hletters (by decide)) hbody
  have hdeclared : declarations module = declared (Identifier.componentName id) props deps :=
    declarations_source (hletters (by decide)) isNameChar_of_mem_glyphs
  refine ⟨hsame, fun glyph hglyph ↦ ?_, ?_⟩
  · have huses : glyph ∈ deps.glyphs ↔ (openTag glyph).occursIn module = true := by
      rw [← hsame, Dependencies.ofBody, List.mem_filter]
      exact and_iff_right hglyph
    rw [← huses, hdeclared]
    constructor
    · rintro ⟨_, himport, hmem⟩
      obtain ⟨-, rfl, -⟩ := importNamed_mem_declared.1 himport
      exact hmem
    · intro hmem
      exact ⟨deps.glyphs, importNamed_mem_declared.2 ⟨List.ne_nil_of_mem hmem, rfl, rfl⟩, hmem⟩
  · have huses : deps.usesSubComponent = (openTag subComponent).occursIn module := by
      rw [← hsame]
      rfl
    rw [← huses, hdeclared]
    exact importDefault_mem_declared.trans (and_iff_left ⟨rfl, rfl⟩)

theorem imports_eq_uses_of_broken_tag :
    let body : Text := "<Add\n  title={size}\n/>"
    let props : List Text := ["size"]
    let deps := Dependencies.ofBody body
    let module := source ['c'] body props deps
    ((∀ prop ∈ props, ∀ c ∈ prop, Canvas.isNameChar c = true) ∧
        ∀ name ∈ knownSymbols, ¬ '<' :: name <:+ body) ∧
      Dependencies.ofBody module = deps ∧
      (∀ glyph ∈ glyphCatalog,
        (∃ names, .importNamed names glyphModule ∈ declarations module ∧ glyph ∈ names) ↔
          (openTag glyph).occursIn module = true) ∧
      (.importDefault subComponent subComponentModule ∈ declarations module ↔
        (openTag subComponent).occursIn module = true) := by
  intro body props
  have hprops : ∀ prop ∈ props, ∀ c ∈ prop, Canvas.isNameChar c = true :=
    List.forall_mem_singleton.2 (List.all_eq_true.1 (by decide))
  have hbody : ∀ name ∈ knownSymbols, ¬ '<' :: name <:+ body := by decide
  exact ⟨⟨hprops, hbody⟩, imports_eq_uses ['c'] body hprops hbody⟩

end CanvasLift.Component
