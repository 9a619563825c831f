import CanvasLift.Component.Source
import CanvasLift.Proofs.Identifier

/-!
The source of a component as its body between a head and a footer. The main statements are that a
source falls apart so, and that the characters of the head are those of a few fixed texts, the name,
the props and the imports.
-/

namespace CanvasLift.Component

/-- The characters of the fixed texts of a source and of component names, imports apart. -/
def isMark (c : Char) : Bool :=
  c.isAlphanum || c ∈ [' ', '"', ';', '(', ')', '\x7b', '\x7d', '?', ':', ',', '=', '|']

def isImportMark (c : Char) : Bool := isMark c || c ∈ ['@', '/', '-']

variable {id body name : Text} {props : List Text} {deps : Dependencies} {x : Char}

theorem not_mem_of_all {p : Char → Bool} {t : Text} (hx : p x = false) (ht : t.all p = true) :
    x ∉ t := by
  intro h
  rw [List.all_eq_true.1 ht x h] at hx
  cases hx

theorem not_mem_glyphs_ofBody (hx : ∀ glyph ∈ glyphCatalog, x ∉ glyph) (body : Text) :
    ∀ glyph ∈ (Dependencies.ofBody body).glyphs, x ∉ glyph :=
  fun glyph hglyph ↦ hx glyph (List.mem_filter.1 hglyph).1

section Imports

variable (hx : isImportMark x = false) (hglyphs : ∀ glyph ∈ deps.glyphs, x ∉ glyph)
include hx hglyphs

theorem not_mem_glyphImport : x ∉ glyphImport deps.glyphs := by
  have hnames : x ∉ Text.joinWith ", " deps.glyphs :=
    Text.not_mem_joinWith (not_mem_of_all hx (by decide)) hglyphs
  refine List.not_mem_append (List.not_mem_append (List.not_mem_append ?_ ?_) ?_) ?_
  · exact List.not_mem_append (not_mem_of_all hx (by decide)) hnames
  · exact not_mem_of_all hx (by decide)
  · exact not_mem_of_all hx (by decide)
  · exact not_mem_of_all hx (by decide)

theorem not_mem_importLines : ∀ line ∈ importLines deps, x ∉ line := by
  have hglyph := not_mem_glyphImport hx hglyphs
  have hsub : x ∉ subComponentImport := not_mem_of_all hx (by decide)
  intro line hline
  rw [importLines] at hline
  rcases List.mem_append.1 hline with hline | hline
  · split at hline
    · cases hline
    · rcases List.mem_cons.1 hline with rfl | hline
      · exact hglyph
      · rw [List.mem_singleton.1 hline]
        exact List.not_mem_nil
  · split at hline
    · rcases List.mem_cons.1 hline with rfl | hline
      · exact hsub
      · rw [List.mem_singleton.1 hline]
        exact List.not_mem_nil
    · cases hline

end Imports

/-- The lines of a source before its body, but for the bracket that ends the last of them. -/
def headLines (id : Text) (props : List Text) (deps : Dependencies) : List Text :=
  let name := Identifier.componentName id
  [clientDirective, []] ++ importLines deps ++ propLines name props ++
    [("export default function " : Text) ++ name ++ "(" ++ parameters name props ++ ") \x7b",
      "  return "]

def embedded (body : Text) : Text := Text.unlines (bodyLines body)

def footer (body : Text) : Text := if body = [] then "  );\n\x7d\n" else "\n  );\n\x7d\n"

section Head

variable (hx : isMark x = false) (hname : x ∉ name) (hprops : ∀ prop ∈ props, x ∉ prop)
include hx hname hprops

theorem not_mem_propLines : ∀ line ∈ propLines name props, x ∉ line := by
  intro line hline
  rw [propLines] at hline
  split at hline
  · cases hline
  · rcases List.mem_cons.1 hline with rfl | hline
    · simp only [List.mem_append, not_or]
      exact ⟨⟨not_mem_of_all hx (by decide), hname⟩, not_mem_of_all hx (by decide)⟩
    · rcases List.mem_append.1 hline with hline | hline
      · obtain ⟨prop, hprop, rfl⟩ := List.mem_map.1 hline
        simp only [List.mem_append, not_or]
        exact ⟨⟨⟨⟨not_mem_of_all hx (by decide), hprops prop hprop⟩,
          not_mem_of_all hx (by decide)⟩, not_mem_of_all hx (by decide)⟩,
          not_mem_of_all hx (by decide)⟩
      · rcases List.mem_cons.1 hline with rfl | hline
        · exact not_mem_of_all hx (by decide)
        · rw [List.mem_singleton.1 hline]
          exact List.not_mem_nil

theorem not_mem_parameters : x ∉ parameters name props := by
  have hnames : x ∉ Text.joinWith ", " props :=
    Text.not_mem_joinWith (not_mem_of_all hx (by decide)) hprops
  rw [parameters]
  split
  · exact List.not_mem_nil
  · simp only [List.mem_append, not_or]
    exact ⟨⟨⟨⟨not_mem_of_all hx (by decide), hnames⟩, not_mem_of_all hx (by decide)⟩, hname⟩,
      not_mem_of_all hx (by decide)⟩

omit hname in
theorem not_mem_headLines (himports : ∀ line ∈ importLines deps, x ∉ line) :
    ∀ line ∈ headLines id props deps, x ∉ line := by
  have hname : x ∉ Identifier.componentName id :=
    Identifier.not_mem_componentName (Bool.or_eq_false_iff.1 hx).1
  intro line hline
  simp only [headLines, List.mem_append, List.mem_cons, List.not_mem_nil, or_false] at hline
  rcases hline with (((rfl | rfl) | hline) | hline) | rfl | rfl
  · exact not_mem_of_all hx (by decide)
  · exact List.not_mem_nil
  · exact himports line hline
  · exact not_mem_propLines hx hname hprops line hline
  · have hparameters := not_mem_parameters hx hname hprops
    simp only [List.mem_append, not_or]
    exact ⟨⟨⟨⟨not_mem_of_all hx (by decide), hname⟩, not_mem_of_all hx (by decide)⟩,
      hparameters⟩, not_mem_of_all hx (by decide)⟩
  · exact not_mem_of_all hx (by decide)

end Head

theorem bodyLines_ne_nil (h : body ≠ []) : bodyLines body ≠ [] := by
  rw [bodyLines, if_neg h]
  exact fun hnil ↦ Text.splitOn_ne_nil '\n' body (List.map_eq_nil_iff.1 hnil)

theorem infix_indent_iff {w : Text} (hspace : w.head? ≠ some ' ') (line : Text) :
    w <:+: bodyIndent ++ line ↔ w <:+: line := by
  have hskip : ∀ t : Text, w <:+: ' ' :: t ↔ w <:+: t := by
    intro t
    rw [List.infix_cons_iff]
    refine or_iff_right_of_imp fun h ↦ ?_
    cases w with
    | nil => exact List.nil_infix
    | cons x w =>
      obtain ⟨rfl, -⟩ := List.cons_prefix_cons.1 h
      exact absurd rfl hspace
  exact (hskip _).trans ((hskip _).trans ((hskip _).trans (hskip line)))

theorem infix_embedded_iff {w : Text} (hbreak : '\n' ∉ w) (hspace : ' ' ∉ w) :
    w <:+: embedded body ↔ w <:+: body := by
  by_cases hbody : body = []
  · rw [hbody]
    exact Iff.rfl
  · have hlines : bodyLines body = (Text.lines body).map fun line ↦
        if Text.allBlank line then line else bodyIndent ++ line := by rw [bodyLines, if_neg hbody]
    have hline : ∀ line : Text, (w <:+: if Text.allBlank line then line else bodyIndent ++ line) ↔
        w <:+: line := by
      intro line
      split
      · exact Iff.rfl
      · exact infix_indent_iff (fun h ↦ hspace (List.mem_of_head? h)) line
    rw [Text.infix_iff_exists_line (t := body) hbreak]
    constructor
    · intro h
      obtain ⟨line, hmem, h⟩ := Text.infix_unlines hbreak (bodyLines_ne_nil hbody) h
      rw [hlines] at hmem
      obtain ⟨old, hold, rfl⟩ := List.mem_map.1 hmem
      exact ⟨old, hold, (hline old).1 h⟩
    · rintro ⟨old, hold, h⟩
      refine ((hline old).2 h).trans (Text.infix_joinWith_of_mem ?_)
      rw [hlines]
      exact List.mem_map_of_mem hold

theorem source_eq (id body : Text) (props : List Text) (deps : Dependencies) :
    source id body props deps =
      Text.unlines (headLines id props deps) ++ '(' :: '\n' :: (embedded body ++ footer body) := by
  let name := Identifier.componentName id
  let front : List Text := [clientDirective, []] ++ importLines deps ++ propLines name props ++
    [("export default function " : Text) ++ name ++ "(" ++ parameters name props ++ ") \x7b"]
  have hhead : headLines id props deps = front ++ ["  return ".toList] := by
    simp only [headLines, front, List.append_assoc]
    rfl
  have hreturn : ("  return (" : Text) = "  return " ++ ['('] := by decide
  have hlines : sourceLines id body props deps =
      front ++ [("  return " : Text) ++ ['(']] ++ (bodyLines body ++ ["  );".toList, ['\x7d']]) := by
    simp only [sourceLines, front, ← hreturn, List.append_assoc]
    rfl
  have hopen : Text.unlines (front ++ [("  return " : Text) ++ ['(']]) =
      Text.unlines (headLines id props deps) ++ ['('] := by
    rw [hhead]
    exact Text.joinWith_append_last ['\n'] front "  return " ['(']
  have hclose : Text.unlines ["  );".toList, ['\x7d']] ++ "\n" = "  );\n\x7d\n" := by decide
  rw [source, hlines, Text.unlines_append (by simp) (by simp), hopen, embedded, footer]
  by_cases hbody : body = []
  · have hnone : bodyLines body = [] := by rw [bodyLines, if_pos hbody]
    rw [hnone, if_pos hbody, ← hclose]
    simp [Text.unlines, Text.joinWith, List.intercalate]
  · rw [Text.unlines_append (bodyLines_ne_nil hbody) (by simp), if_neg hbody]
    have hfooter : ("\n  );\n\x7d\n" : Text) = '\n' :: (Text.unlines ["  );".toList, ['\x7d']] ++ "\n") := by
      decide
    rw [hfooter]
    simp only [List.append_assoc, List.cons_append, List.nil_append]

theorem not_mem_bodyLines (h : x ∉ body) (hx : x ≠ ' ') : ∀ line ∈ bodyLines body, x ∉ line := by
  intro line hline
  rw [bodyLines] at hline
  split at hline
  · cases hline
  · obtain ⟨old, hold, rfl⟩ := List.mem_map.1 hline
    split
    · exact Text.not_mem_lines h old hold
    · have hindent : x ∉ bodyIndent := not_mem_of_all (p := (· = ' ')) (by simpa using hx) (by decide)
      exact List.not_mem_append hindent (Text.not_mem_lines h old hold)

theorem head_bodyLines {line : Text} (h : line ∈ bodyLines body) :
    line = [] ∨ ∃ c rest, line = c :: rest ∧ Text.isBlank c = true := by
  rw [bodyLines] at h
  split at h
  · cases h
  · obtain ⟨old, -, rfl⟩ := List.mem_map.1 h
    split
    · next hblank =>
      cases old with
      | nil => exact .inl rfl
      | cons c rest => exact .inr ⟨c, rest, rfl, List.all_eq_true.1 hblank c List.mem_cons_self⟩
    · exact .inr ⟨' ', [' ', ' ', ' '] ++ old, by rw [← List.cons_append]; rfl, by decide⟩

theorem break_not_mem_bodyLines {line : Text} (h : line ∈ bodyLines body) : '\n' ∉ line := by
  rw [bodyLines] at h
  split at h
  · cases h
  · obtain ⟨old, hold, rfl⟩ := List.mem_map.1 h
    have hbreak : '\n' ∉ old := fun hmem ↦ (Text.mem_of_mem_splitOn hold hmem).2 rfl
    split
    · exact hbreak
    · exact List.not_mem_append (by decide) hbreak

theorem mem_sourceLines {line : Text} (h : line ∈ sourceLines id body props deps) :
    line ∈ headLines id props deps ∨ line ∈ bodyLines body ∨ line = "  return (".toList ∨
      line = "  );".toList ∨ line = ['\x7d'] := by
  simp only [sourceLines, headLines, List.mem_append, List.mem_cons, List.not_mem_nil,
    or_false] at h ⊢
  rcases h with (((((h | h) | h) | h) | h | h) | h) | h | h
  · exact .inl (.inl (.inl (.inl (.inl h))))
  · exact .inl (.inl (.inl (.inl (.inr h))))
  · exact .inl (.inl (.inl (.inr h)))
  · exact .inl (.inl (.inr h))
  · exact .inl (.inr (.inl h))
  · exact .inr (.inr (.inl h))
  · exact .inr (.inl h)
  · exact .inr (.inr (.inr (.inl h)))
  · exact .inr (.inr (.inr (.inr h)))

theorem lines_source (hprops : ∀ prop ∈ props, '\n' ∉ prop)
    (hglyphs : ∀ glyph ∈ deps.glyphs, '\n' ∉ glyph) :
    Text.lines (source id body props deps) = sourceLines id body props deps ++ [[]] := by
  have himports := not_mem_importLines (by decide) hglyphs
  have hhead : ∀ line ∈ headLines id props deps, '\n' ∉ line :=
    not_mem_headLines (by decide) hprops himports
  have hlines : ∀ line ∈ sourceLines id body props deps, '\n' ∉ line := by
    intro line hline
    obtain h | h | rfl | rfl | rfl := mem_sourceLines hline
    · exact hhead line h
    · exact break_not_mem_bodyLines h
    · decide
    · decide
    · decide
  have hne : sourceLines id body props deps ≠ [] := by simp [sourceLines]
  have hunlines := Text.lines_unlines hne hlines
  rw [Text.lines] at hunlines ⊢
  rw [source, show ("\n" : Text) = '\n' :: [] from rfl, Text.splitOn_append, hunlines]
  rfl

theorem not_mem_source (id : Text) (hbody : '\r' ∉ body) (hprops : ∀ prop ∈ props, '\r' ∉ prop)
    (hglyphs : ∀ glyph ∈ deps.glyphs, '\r' ∉ glyph) : '\r' ∉ source id body props deps := by
  have himports := not_mem_importLines (by decide) hglyphs
  have hhead : ∀ line ∈ headLines id props deps, '\r' ∉ line :=
    not_mem_headLines (by decide) hprops himports
  have hfooter : '\r' ∉ footer body := by
    rw [footer]
    split <;> decide
  rw [source_eq]
  simp only [List.mem_append, List.mem_cons, not_or]
  exact ⟨Text.not_mem_joinWith (by decide) hhead, by decide, by decide,
    Text.not_mem_joinWith (by decide) (not_mem_bodyLines hbody (by decide)), hfooter⟩

end CanvasLift.Component
