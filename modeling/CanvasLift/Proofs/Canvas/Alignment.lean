import CanvasLift.Proofs.Canvas.Margin
import CanvasLift.Proofs.Canvas.Props

namespace CanvasLift.Canvas

open Pattern

variable {block line : Text}

/-- What becomes of a line that has lost the margin of its block. -/
def rewriteLine (line : Text) : Text := normalizeCallbacks (resolveReferences (stripAffordances line))

def blockLines (block : Text) : List Text := Text.lines (Text.joinBreaks block)

def rewrittenLines (block : Text) : List Text := (dedent (blockLines block)).map rewriteLine

theorem body_eq (block : Text) : (Markup.ofBlock block).body =
    if Text.allBlank (Text.unlines (rewrittenLines block)) then []
    else Text.unlines (rewrittenLines block) := by
  rw [Markup.ofBlock, List.map_map]
  rfl

theorem rewrittenLines_ne_nil (block : Text) : rewrittenLines block ≠ [] := by
  intro h
  rw [rewrittenLines, dedent_eq_map, List.map_eq_nil_iff, List.map_eq_nil_iff] at h
  exact Text.splitOn_ne_nil _ _ h

theorem lineFeed_not_mem_rewrittenLines (block : Text) : ∀ line ∈ rewrittenLines block, '\n' ∉ line := by
  have hlines : ∀ line ∈ blockLines block, '\n' ∉ line := fun line hline hmem ↦
    (Text.mem_of_mem_splitOn hline hmem).2 rfl
  refine List.forall_mem_map.2 fun line hline ↦ ?_
  have hstripped := not_mem_stripAffordances rfl (not_mem_dedent hlines line hline)
  exact not_mem_normalizeCallbacks rfl (not_mem_resolveReferences hstripped)

theorem body_eq_nil_iff :
    (Markup.ofBlock block).body = [] ↔ ∀ line ∈ rewrittenLines block, Text.allBlank line = true := by
  rw [← Text.allBlank_unlines_iff, body_eq]
  constructor
  · intro h
    split at h
    · assumption
    · rw [h]
      rfl
  · exact fun h ↦ if_pos h

theorem lines_body (h : (Markup.ofBlock block).body ≠ []) :
    Text.lines (Markup.ofBlock block).body = rewrittenLines block := by
  rw [body_eq] at h ⊢
  split at h
  · exact absurd rfl h
  · next hblank =>
    rw [if_neg hblank]
    exact Text.lines_unlines (rewrittenLines_ne_nil block) (lineFeed_not_mem_rewrittenLines block)

theorem rewriteLine_of_blank (h : Text.allBlank line = true) : rewriteLine line = line := by
  have hblank : ∀ c ∈ line, Text.isBlank c = true := List.all_eq_true.1 h
  have hstrip : stripAffordances line = line := if_pos h
  have hresolve : resolveReferences line = line := by
    rw [resolveReferences_eq_self_iff, ← Bool.not_eq_true, occursIn_iff]
    intro hoccurs
    obtain ⟨front, taken, rest, rfl, htakes⟩ := hoccurs
    obtain ⟨-, -, name, rfl, -⟩ := takes_scopeReference_iff.1 htakes
    exact absurd (by simp) (Text.not_mem_of_blank hblank (c := 'e') (by decide))
  have hnormalize : normalizeCallbacks line = line := by
    rw [normalizeCallbacks_eq_self_iff, ← Bool.not_eq_true]
    intro hoccurs
    have hlead := (infix_of_occursIn_chain hoccurs).subset (a := 'o') (by decide)
    exact Text.not_mem_of_blank hblank (by decide) hlead
  rw [rewriteLine, hstrip, hresolve, hnormalize]

/-- A line is rewritten from its place in the block and the margin alone. -/
theorem getElem?_rewrittenLines (block : Text) (i : Nat) : (rewrittenLines block)[i]? =
    (blockLines block)[i]?.map fun line ↦ rewriteLine (outdent (margin (blockLines block)) line) := by
  rw [rewrittenLines, dedent_eq_map, List.map_map, List.getElem?_map]
  rfl

/-- Either nothing but blank lines is left of a block, and its body is empty, or the body has as many
lines as the block, the blank ones as they were. Bodies of blocks with one margin agree on each line on
which the blocks do. -/
theorem body_aligned (block : Text) :
    let body := (Markup.ofBlock block).body
    ((∀ line ∈ rewrittenLines block, Text.allBlank line = true) ∧ body = [] ∨
      body ≠ [] ∧ Text.lines body = rewrittenLines block ∧ (Text.lines body).length = lineCount block ∧
        ∀ (i : Nat) (line : Text), (blockLines block)[i]? = some line → Text.allBlank line = true →
          (Text.lines body)[i]? = some line) ∧
    ∀ block' : Text, lineCount block' = lineCount block →
      margin (blockLines block') = margin (blockLines block) →
      body ≠ [] → (Markup.ofBlock block').body ≠ [] → ∀ i : Nat,
        (blockLines block)[i]? = (blockLines block')[i]? →
        (Text.lines body)[i]? = (Text.lines (Markup.ofBlock block').body)[i]? := by
  intro body
  refine ⟨?_, fun block' _ hmargin hbody hbody' i hsame ↦ ?_⟩
  · by_cases hbody : body = []
    · exact .inl ⟨body_eq_nil_iff.1 hbody, hbody⟩
    · refine .inr ⟨hbody, lines_body hbody, ?_, fun i line hline hblank ↦ ?_⟩
      · rw [lines_body hbody, rewrittenLines, List.length_map, dedent_eq_map, List.length_map]
        rfl
      · rw [lines_body hbody, getElem?_rewrittenLines, hline, Option.map_some, outdent_of_blank hblank,
          rewriteLine_of_blank hblank]
  · rw [lines_body hbody, lines_body hbody', getElem?_rewrittenLines, getElem?_rewrittenLines, hmargin,
      hsame]

theorem body_aligned_of_two :
    (Text.lines (Markup.ofBlock "  <A />\r\n\t\r\n    \x7bel.x\x7d").body)[1]? =
        some ("\t" : Text) ∧
      (Text.lines (Markup.ofBlock "  <A />\r\n\t\r\n    \x7bel.x\x7d").body)[2]? =
        (Text.lines (Markup.ofBlock "  <B />\n\n    \x7bel.x\x7d").body)[2]? := by
  obtain ⟨hlines, hsame⟩ := body_aligned "  <A />\r\n\t\r\n    \x7bel.x\x7d"
  constructor
  · obtain ⟨-, hempty⟩ | ⟨-, -, -, hblank⟩ := hlines
    · exact absurd hempty (by decide)
    · exact hblank 1 "\t" (by decide) (by decide)
  · exact hsame "  <B />\n\n    \x7bel.x\x7d" (by decide) (by decide) (by decide) (by decide) 2 (by decide)

end CanvasLift.Canvas
