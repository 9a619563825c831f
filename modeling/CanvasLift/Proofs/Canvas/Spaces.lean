import CanvasLift.Proofs.Canvas.Affordance
import CanvasLift.Proofs.Text.Runs

namespace CanvasLift.Canvas

open Pattern

variable {t u w pad rest : Text} {last : Option Char} {p : Char → Bool}

/-- `u` is `t` with one space in the place of each run of spaces. -/
inductive Collapses : (t u : Text) → Prop
  | word {w : Text} (hw : ' ' ∉ w) : Collapses w w
  | space {w pad rest u : Text} (hw : ' ' ∉ w) (hpad : ∀ c ∈ pad, c = ' ') (hrest : rest.head? ≠ some ' ')
      (h : Collapses rest u) : Collapses (w ++ ' ' :: (pad ++ rest)) (w ++ ' ' :: u)

theorem collapseSpaces_word_append (hw : ' ' ∉ w) (t : Text) :
    collapseSpaces (w ++ t) = w ++ collapseSpaces t := by
  induction w with
  | nil => rfl
  | cons c w ih =>
    obtain ⟨hc, hw⟩ := not_or.1 (mt List.mem_cons.2 hw)
    have hcut : collapseSpaces (c :: (w ++ t)) = c :: collapseSpaces (w ++ t) :=
      collapseSpaces_append_cons (Ne.symm hc) [] (w ++ t)
    rw [List.cons_append, hcut, ih hw]
    rfl

theorem end?_spaceRun (hpad : ∀ c ∈ pad, c = ' ') (hrest : rest.head? ≠ some ' ') :
    spaceRun.end? (.between last (' ' :: ' ' :: (pad ++ rest))) =
      some ⟨pad.reverse ++ ' ' :: ' ' :: last.toList, rest, []⟩ := by
  have hstop : rest.head?.any (· = ' ') = false := by
    cases h : rest.head? with
    | none => rfl
    | some c => simpa [h] using hrest
  have hruns : (Cursor.runs (· = ' ') [] (' ' :: ' ' :: last.toList) (pad ++ rest) []).head? = _ :=
    Cursor.head?_runs (by simpa using hpad) hstop
  rw [end?_eq_head?, ← hruns]
  simp [spaceRun, chain, literal, run, ends, Cursor.between]

theorem collapseSpaces_space (hpad : ∀ c ∈ pad, c = ' ') (hrest : rest.head? ≠ some ' ') :
    collapseSpaces (' ' :: (pad ++ rest)) = ' ' :: collapseSpaces rest := by
  have hplain : spaceRun.isPlain = true := by decide
  cases pad with
  | nil =>
    refine replace_cons hplain _ (Bool.not_eq_true _ ▸ fun hopens ↦ ?_)
    obtain ⟨taken, more, heq, _, _, rfl, hspace, _, _, rfl, hrun, rfl⟩ := (opens_iff _ _).1 hopens
    obtain rfl := takes_literal.1 hspace
    obtain ⟨c, run, rfl⟩ := List.exists_cons_of_ne_nil (takes_run.1 hrun).1
    have hc : c = ' ' := of_decide_eq_true ((takes_run.1 hrun).2 c List.mem_cons_self)
    obtain ⟨-, hrest'⟩ := List.cons.inj heq
    exact hrest (by simp_all)
  | cons c pad =>
    obtain ⟨rfl, hmore⟩ := List.forall_mem_cons.1 hpad
    have hreach : (Cursor.between none ((' ' :: ' ' :: pad) ++ rest)).Reaches (' ' :: ' ' :: pad)
        ⟨pad.reverse ++ [' ', ' '], rest, []⟩ := ⟨by simp [Cursor.between], rfl⟩
    have hpieces := piecesAfter_of_end? (end?_spaceRun hmore hrest) hreach
      (List.cons_ne_nil _ _)
    rw [piecesAfter_of_isPlain hplain 0 (lastOver none _)] at hpieces
    rw [collapseSpaces, replace]
    exact congrArg (List.flatMap _) hpieces

theorem collapses_collapseSpaces (t : Text) : Collapses t (collapseSpaces t) := by
  induction hlength : t.length using Nat.strong_induction_on generalizing t with
  | _ n ih =>
    obtain ⟨w, more, rfl, hw, hstop⟩ := Text.exists_stretch (· ≠ ' ') t
    have hword : ' ' ∉ w := fun hmem ↦ by simpa using hw ' ' hmem
    cases more with
    | nil =>
      have hnil : collapseSpaces [] = [] := rfl
      rw [collapseSpaces_word_append hword, hnil, List.append_nil]
      exact .word hword
    | cons c more =>
      obtain rfl : c = ' ' := by simpa using hstop
      obtain ⟨pad, rest, rfl, hspaces, hend⟩ := Text.exists_stretch (· = ' ') more
      have hpad : ∀ c ∈ pad, c = ' ' := by simpa using hspaces
      have hrest : rest.head? ≠ some ' ' := by
        intro h
        simp [h] at hend
      rw [collapseSpaces_word_append hword, collapseSpaces_space hpad hrest]
      refine .space hword hpad hrest (ih rest.length ?_ rest rfl)
      rw [← hlength]
      simp only [List.length_append, List.length_cons]
      omega

namespace Collapses

theorem head? (h : Collapses t u) : u.head? = t.head? := by
  cases h with
  | word hw => rfl
  | @space w pad rest u hw hpad hrest h =>
    cases w with
    | nil => rfl
    | cons c w => rfl

theorem not_double (h : Collapses t u) : ¬ [' ', ' '] <:+: u := by
  induction h with
  | word hw => exact fun h ↦ hw (h.subset List.mem_cons_self)
  | space hw _ hrest h ih =>
    intro hdouble
    obtain hfirst | hlater := Text.cons_infix_append_cons hw hdouble
    · exact hrest (h.head? ▸ Text.head?_eq_of_prefix hfirst rfl)
    · exact ih hlater

theorem eq_self (h : Collapses t u) (hdouble : ¬ [' ', ' '] <:+: t) : u = t := by
  induction h with
  | word hw => rfl
  | @space w pad rest u hw hpad hrest h ih =>
    cases pad with
    | nil =>
      rw [ih]
      · rfl
      · exact fun hrest ↦ hdouble (hrest.trans ⟨w ++ [' '], [], by simp⟩)
    | cons c pad =>
      rw [hpad c List.mem_cons_self] at hdouble
      exact absurd ⟨w, pad ++ rest, by simp⟩ hdouble

theorem runs_eq (h : Collapses t u) (hp : p ' ' = false) : Text.runs p u = Text.runs p t := by
  induction h with
  | word hw => rfl
  | space hw hpad hrest h ih =>
    rw [Text.runs_append_cons hp, Text.runs_append_cons hp, ih, Text.runs_append_left]
    intro c hc
    rw [hpad c hc, hp]

end Collapses

theorem not_double_collapseSpaces (t : Text) : ¬ [' ', ' '] <:+: collapseSpaces t :=
  (collapses_collapseSpaces t).not_double

theorem collapseSpaces_eq_self (h : ¬ [' ', ' '] <:+: t) : collapseSpaces t = t :=
  (collapses_collapseSpaces t).eq_self h

theorem runs_collapseSpaces (hp : p ' ' = false) (t : Text) :
    Text.runs p (collapseSpaces t) = Text.runs p t := (collapses_collapseSpaces t).runs_eq hp

end CanvasLift.Canvas
