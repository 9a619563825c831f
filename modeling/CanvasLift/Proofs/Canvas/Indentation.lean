import CanvasLift.Proofs.Canvas.Affordance
import CanvasLift.Proofs.Canvas.Markup
import Mathlib.Data.List.DropRight

namespace CanvasLift.Canvas

open Pattern
open Attribute (isLabelChar)

variable {a : Pattern} {p : Char → Bool} {word : Text} {opening closing : Char} {IsValue : Text → Prop}
  {c : Char} {t w indent line : Text}

theorem isBlank_of_isLabelChar (h : isLabelChar c = true) : Text.isBlank c = false := by
  obtain halnum | hdash := Bool.or_eq_true_iff.1 h
  · exact isBlank_of_isNameChar (Bool.or_eq_true_iff.2 (.inl halnum))
  · rw [of_decide_eq_true hdash]
    decide

/-- A match that starts in blank text has nothing but its own padding there. -/
theorem Finds.opens_append_iff (h : Finds a p word opening closing IsValue)
    (hw : ∀ c ∈ w, Text.isBlank c = true) :
    a.opens (w ++ t) = true ↔ (∀ c ∈ w, p c = true) ∧ a.opens t = true := by
  rw [h.opens_iff, h.opens_iff]
  constructor
  · intro hopens
    obtain ⟨front, value, rest, heq, hfront, hvalue⟩ := hopens
    obtain ⟨more, rfl, rfl⟩ | ⟨more, rfl, hmore⟩ := List.append_eq_append_iff.1 heq
    · obtain ⟨hw, hmore⟩ := List.forall_mem_append.1 hfront
      exact ⟨hw, more, value, rest, rfl, hmore, hvalue⟩
    · cases more with
      | nil => exact ⟨by simpa using hfront, [], value, rest, hmore.symm, by simp, hvalue⟩
      | cons x more =>
        obtain ⟨y, word, rfl⟩ := List.exists_cons_of_ne_nil h.ne_nil
        obtain ⟨rfl, -⟩ := List.cons.inj hmore
        have hblank := isBlank_of_isLabelChar (h.isLabelChar_of_mem y List.mem_cons_self)
        rw [hw y (by simp)] at hblank
        cases hblank
  · intro hopens
    obtain ⟨hw, front, value, rest, rfl, hfront, hvalue⟩ := hopens
    refine ⟨w ++ front, value, rest, by simp, ?_, hvalue⟩
    exact List.forall_mem_append.2 ⟨hw, hfront⟩

theorem Finds.erase_indented (h : Finds a Text.isPadding word opening closing IsValue)
    (hindent : ∀ c ∈ indent, Text.isBlank c = true) (t : Text) :
    a.erase (indent ++ t) =
      (if a.opens t then indent.rdropWhile Text.isPadding else indent) ++ a.erase t := by
  cases hopens : a.opens t with
  | false =>
    refine replace_append_of_not_opens h.isPlain _ fun w hw _ ↦ ?_
    rw [← Bool.not_eq_true, h.opens_append_iff fun c hc ↦ hindent c (hw.subset hc), hopens]
    simp
  | true =>
    obtain ⟨front, value, rest, rfl, hfront, hvalue⟩ := h.opens_iff.1 hopens
    have hfound (pad : Text) (hpad : ∀ c ∈ pad, Text.isPadding c = true) :
        a.erase (pad ++ (word ++ '=' :: opening :: (value ++ closing :: rest))) = a.erase rest := by
      have hreplaced : a.erase (pad ++ (word ++ '=' :: opening :: (value ++ closing :: rest))) =
          [] ++ a.erase rest := h.replace_found hpad hvalue fun _ _ ↦ rfl
      exact hreplaced
    generalize word ++ '=' :: opening :: (value ++ closing :: rest) = found at hfound
    have hsplit : indent.rdropWhile Text.isPadding ++ indent.rtakeWhile Text.isPadding = indent :=
      List.rdropWhile_append_rtakeWhile
    have hpadding : ∀ c ∈ indent.rtakeWhile Text.isPadding ++ front, Text.isPadding c = true :=
      List.forall_mem_append.2 ⟨fun c hc ↦ List.mem_rtakeWhile_imp hc, hfront⟩
    -- No match starts before the padding at the end of the indentation: what is left there ends otherwise.
    have hkept : ∀ w, w <:+ indent.rdropWhile Text.isPadding → w ≠ [] → ∀ t, a.opens (w ++ t) = false := by
      intro w hw hne t
      have hblank : ∀ c ∈ w, Text.isBlank c = true := fun c hc ↦
        hindent c ((List.rdropWhile_prefix _ _).subset (hw.subset hc))
      rw [← Bool.not_eq_true, h.opens_append_iff hblank]
      intro hall
      obtain ⟨s, hs⟩ := hw
      have hne' : indent.rdropWhile Text.isPadding ≠ [] := by
        rw [← hs]
        simp [hne]
      refine List.rdropWhile_last_not _ _ hne' (hall.1 _ ?_)
      simp only [← hs, List.getLast_append_of_ne_nil _ hne, List.getLast_mem]
    calc a.erase (indent ++ (front ++ found))
        = a.erase (indent.rdropWhile Text.isPadding ++
            ((indent.rtakeWhile Text.isPadding ++ front) ++ found)) := by
          rw [List.append_assoc, ← List.append_assoc _ _ (front ++ found), hsplit]
      _ = indent.rdropWhile Text.isPadding ++
            a.erase ((indent.rtakeWhile Text.isPadding ++ front) ++ found) :=
          replace_append_of_not_opens h.isPlain _ fun w hw hne ↦ hkept w hw hne _
      _ = indent.rdropWhile Text.isPadding ++ a.erase (front ++ found) := by
          rw [hfound _ hpadding, hfound _ hfront]

/-- The attributes are erased one after another, and one of them stands at the start of what is left then,
its padding apart. -/
def leadsWith : List Pattern → Text → Bool
  | [], _ => false
  | a :: attributes, t => a.opens t || leadsWith attributes (a.erase t)

def TakesPadding (a : Pattern) : Prop :=
  ∃ word opening closing IsValue, Finds a Text.isPadding word opening closing IsValue

theorem takesPadding_of_mem : ∀ a ∈ canvasAttributes, TakesPadding a :=
  List.forall_mem_cons.2 ⟨⟨_, _, _, _, finds_handler⟩, List.forall_mem_cons.2
    ⟨⟨_, _, _, _, finds_roleButton⟩, List.forall_mem_singleton.2 ⟨_, _, _, _, finds_tabStop⟩⟩⟩

theorem isBlank_rdropWhile (h : ∀ c ∈ indent, Text.isBlank c = true) :
    ∀ c ∈ indent.rdropWhile Text.isPadding, Text.isBlank c = true :=
  fun c hc ↦ h c ((List.rdropWhile_prefix _ _).subset hc)

theorem erase_all_indented {attributes : List Pattern} (h : ∀ a ∈ attributes, TakesPadding a)
    (hindent : ∀ c ∈ indent, Text.isBlank c = true) (t : Text) :
    attributes.foldl (fun line a ↦ a.erase line) (indent ++ t) =
      (if leadsWith attributes t then indent.rdropWhile Text.isPadding else indent) ++
        attributes.foldl (fun line a ↦ a.erase line) t := by
  induction attributes generalizing indent t with
  | nil => rfl
  | cons a attributes ih =>
    obtain ⟨⟨_, _, _, _, ha⟩, hattributes⟩ := List.forall_mem_cons.1 h
    rw [List.foldl_cons, List.foldl_cons, ha.erase_indented hindent, leadsWith]
    cases a.opens t with
    | false => exact ih hattributes hindent (a.erase t)
    | true =>
      have hrest := ih hattributes (isBlank_rdropWhile hindent) (a.erase t)
      rw [List.rdropWhile_idempotent, ite_self] at hrest
      exact hrest

theorem exists_foldl_erase_cons {attributes : List Pattern} (h : ∀ a ∈ attributes, TakesPadding a)
    (hleads : leadsWith attributes (c :: t) = false) :
    ∃ rest, attributes.foldl (fun line a ↦ a.erase line) (c :: t) = c :: rest := by
  induction attributes generalizing t with
  | nil => exact ⟨t, rfl⟩
  | cons a attributes ih =>
    obtain ⟨⟨_, _, _, _, ha⟩, hattributes⟩ := List.forall_mem_cons.1 h
    obtain ⟨hopens, hlater⟩ := Bool.or_eq_false_iff.1 hleads
    have herase : a.erase (c :: t) = c :: a.erase t := replace_cons ha.isPlain _ hopens
    rw [herase] at hlater
    rw [List.foldl_cons, herase]
    exact ih hattributes hlater

theorem cleanClassAttributes_indented (hindent : ∀ c ∈ indent, Text.isBlank c = true) (t : Text) :
    cleanClassAttributes (indent ++ t) = indent ++ cleanClassAttributes t := by
  refine replace_append_of_not_opens finds_classAttribute.isPlain _ fun w hw hne ↦ ?_
  rw [← Bool.not_eq_true, finds_classAttribute.opens_append_iff fun c hc ↦ hindent c (hw.subset hc)]
  intro h
  obtain ⟨d, more, rfl⟩ := List.exists_cons_of_ne_nil hne
  cases h.1 d List.mem_cons_self

theorem exists_cleanClassAttributes_cons (hc : Text.isBlank c = false) (t : Text) :
    ∃ d rest, cleanClassAttributes (c :: t) = d :: rest ∧ Text.isBlank d = false := by
  obtain ⟨-, hpieces⟩ | ⟨_, _, classes, -, -, -, hpieces⟩ := piecesAfter_cases classAttribute none c t
  · rw [cleanClassAttributes, replace, pieces, hpieces]
    exact ⟨c, _, rfl, hc⟩
  · rw [cleanClassAttributes, replace, pieces, hpieces]
    exact ⟨'c', _, rfl, by decide⟩

theorem exists_tidied_cons (hc : Text.isBlank c = false) (t : Text) :
    ∃ rest, Text.trimEnd (collapseSpaces (c :: t)) = c :: rest := by
  have hspace : c ≠ ' ' := by
    rintro rfl
    exact absurd hc (by decide)
  have hcollapse : collapseSpaces (c :: t) = c :: collapseSpaces t := by
    have happend := collapseSpaces_append_cons hspace [] t
    exact happend
  rw [hcollapse]
  exact ⟨_, Text.trimEnd_append_cons hc [] _⟩

theorem exists_trimStart_cons (h : Text.allBlank t = false) :
    ∃ c rest, Text.trimStart t = c :: rest ∧ Text.isBlank c = false := by
  have hne : Text.trimStart t ≠ [] := by
    rw [Ne, Text.trimStart_eq_nil_iff, h]
    decide
  obtain ⟨c, rest, hcons⟩ := List.exists_cons_of_ne_nil hne
  have hstop := List.head?_dropWhile_not Text.isBlank t
  rw [← Text.trimStart, hcons] at hstop
  exact ⟨c, rest, hcons, by simpa using hstop⟩

theorem tidy_eq (t : Text) : tidy t = if Text.allBlank t then [] else
    t.takeWhile Text.isBlank ++ Text.trimEnd (collapseSpaces (Text.trimStart t)) := by
  rw [tidy]
  split
  · next hnil =>
    rw [hnil]
    split
    · rfl
    · next hblank =>
      obtain ⟨c, rest, htrim, hc⟩ := exists_trimStart_cons (Bool.not_eq_true _ ▸ hblank)
      obtain ⟨more, hcontent⟩ := exists_tidied_cons hc rest
      rw [htrim, hcontent] at hnil
      cases hnil
  · next hne =>
    rw [if_neg]
    intro hblank
    refine hne ?_
    rw [Text.trimStart_eq_nil_iff.2 hblank]
    rfl

theorem tidy_indented (hindent : ∀ c ∈ indent, Text.isBlank c = true) (t : Text) :
    tidy (indent ++ t) = if Text.allBlank t then [] else indent ++ tidy t := by
  rw [tidy_eq, tidy_eq, Text.allBlank_append hindent, List.takeWhile_append_of_pos hindent,
    Text.trimStart, List.dropWhile_append_of_pos hindent]
  split
  · rfl
  · rw [List.append_assoc]
    rfl

theorem tidy_eq_nil_iff : tidy t = [] ↔ Text.allBlank t = true := by
  rw [tidy_eq]
  split
  · next hblank => simp [hblank]
  · next hblank =>
    obtain ⟨c, rest, htrim, hc⟩ := exists_trimStart_cons (Bool.not_eq_true _ ▸ hblank)
    obtain ⟨more, hcontent⟩ := exists_tidied_cons hc rest
    rw [htrim, hcontent]
    simp [hblank]

theorem takeWhile_tidy_cons (hc : Text.isBlank c = false) (t : Text) :
    (tidy (c :: t)).takeWhile Text.isBlank = [] := by
  have htake : (c :: t).takeWhile Text.isBlank = [] := List.takeWhile_cons_of_neg (by simp [hc])
  have htrim : Text.trimStart (c :: t) = c :: t := List.dropWhile_cons_of_neg (by simp [hc])
  obtain ⟨more, hcontent⟩ := exists_tidied_cons hc t
  rw [tidy_eq, htake, htrim, hcontent]
  split
  · rfl
  · exact List.takeWhile_cons_of_neg (by simp [hc])

theorem allBlank_cleanClassAttributes (t : Text) :
    Text.allBlank (cleanClassAttributes t) = Text.allBlank t := by
  obtain ⟨front, hfront, hblank⟩ := Text.exists_eq_append_trimStart t
  rw [hfront, cleanClassAttributes_indented hblank, Text.allBlank_append hblank, Text.allBlank_append hblank]
  cases h : Text.allBlank t with
  | true =>
    rw [Text.trimStart_eq_nil_iff.2 h]
    rfl
  | false =>
    obtain ⟨c, rest, htrim, hc⟩ := exists_trimStart_cons h
    obtain ⟨d, more, hclean, hd⟩ := exists_cleanClassAttributes_cons hc rest
    rw [htrim, hclean]
    simp [Text.allBlank, hc, hd]

theorem stripAffordances_of_not_blank (h : Text.allBlank t = false) :
    stripAffordances t = tidy (cleanClassAttributes (eraseAttributes t)) := by
  rw [stripAffordances, if_neg]
  rw [h]
  decide

/-- A line is stripped behind its indentation; an attribute at the front takes the padding there. -/
theorem stripAffordances_indented (hindent : ∀ c ∈ indent, Text.isBlank c = true)
    (h : Text.allBlank t = false) : stripAffordances (indent ++ t) =
      if stripAffordances t = [] then []
      else (if leadsWith canvasAttributes t then indent.rdropWhile Text.isPadding else indent) ++
        stripAffordances t := by
  have herase : eraseAttributes (indent ++ t) =
      (if leadsWith canvasAttributes t then indent.rdropWhile Text.isPadding else indent) ++
        eraseAttributes t := erase_all_indented takesPadding_of_mem hindent t
  have hleft : ∀ c ∈ if leadsWith canvasAttributes t then indent.rdropWhile Text.isPadding else indent,
      Text.isBlank c = true := by
    split
    · exact isBlank_rdropWhile hindent
    · exact hindent
  have hline := stripAffordances_of_not_blank ((Text.allBlank_append hindent t).trans h)
  have hcontent := stripAffordances_of_not_blank h
  rw [herase, cleanClassAttributes_indented hleft, tidy_indented hleft] at hline
  generalize cleanClassAttributes (eraseAttributes t) = content at hline hcontent
  rw [hline, hcontent]
  by_cases hblank : Text.allBlank content = true
  · rw [if_pos hblank, if_pos (tidy_eq_nil_iff.2 hblank)]
  · rw [if_neg hblank, if_neg (mt tidy_eq_nil_iff.1 hblank)]

theorem takeWhile_stripAffordances_cons (hc : Text.isBlank c = false)
    (h : leadsWith canvasAttributes (c :: t) = false) :
    (stripAffordances (c :: t)).takeWhile Text.isBlank = [] := by
  obtain ⟨rest, herase⟩ : ∃ rest, eraseAttributes (c :: t) = c :: rest :=
    exists_foldl_erase_cons takesPadding_of_mem h
  obtain ⟨d, more, hclean, hd⟩ := exists_cleanClassAttributes_cons hc rest
  have hblank : Text.allBlank (c :: t) = false := by simp [Text.allBlank, hc]
  rw [stripAffordances_of_not_blank hblank, herase, hclean]
  exact takeWhile_tidy_cons hd more

/-- A line becomes empty exactly if nothing but blank characters is left without its canvas attributes.
Otherwise its indentation is followed by what the rest is stripped to, and it is kept unless an attribute
leads the line; then the padding at its end goes, and stays only if the same stands behind the
attribute. -/
theorem indentation_kept_iff (line : Text) (h : Text.allBlank line = false) :
    (stripAffordances line = [] ↔ Text.allBlank (eraseAttributes line) = true) ∧
    (stripAffordances line ≠ [] →
      stripAffordances line = (if leadsWith canvasAttributes (Text.trimStart line)
          then (line.takeWhile Text.isBlank).rdropWhile Text.isPadding
          else line.takeWhile Text.isBlank) ++ stripAffordances (Text.trimStart line) ∧
      ((stripAffordances line).takeWhile Text.isBlank = line.takeWhile Text.isBlank ↔
        (leadsWith canvasAttributes (Text.trimStart line) = true →
          (stripAffordances (Text.trimStart line)).takeWhile Text.isBlank =
            (line.takeWhile Text.isBlank).rtakeWhile Text.isPadding))) := by
  constructor
  · rw [stripAffordances_of_not_blank h, tidy_eq_nil_iff, allBlank_cleanClassAttributes]
  · intro hne
    have hindent : ∀ c ∈ line.takeWhile Text.isBlank, Text.isBlank c = true :=
      List.all_eq_true.1 List.all_takeWhile
    have hsplit : line.takeWhile Text.isBlank ++ Text.trimStart line = line :=
      List.takeWhile_append_dropWhile
    obtain ⟨c, rest, htrim, hc⟩ := exists_trimStart_cons h
    have hrest : Text.allBlank (Text.trimStart line) = false := by simp [htrim, Text.allBlank, hc]
    have hstrip := stripAffordances_indented hindent hrest
    rw [hsplit] at hstrip
    rw [hstrip] at hne ⊢
    split at hne
    · exact absurd rfl hne
    · next hcontent =>
      rw [if_neg hcontent]
      refine ⟨rfl, ?_⟩
      cases hleads : leadsWith canvasAttributes (Text.trimStart line) with
      | false =>
        have hnone : (stripAffordances (Text.trimStart line)).takeWhile Text.isBlank = [] := by
          rw [htrim] at hleads ⊢
          exact takeWhile_stripAffordances_cons hc hleads
        rw [if_neg (by decide), List.takeWhile_append_of_pos hindent, hnone, List.append_nil]
        simp
      | true =>
        have hpadding : (line.takeWhile Text.isBlank).rdropWhile Text.isPadding ++
            (line.takeWhile Text.isBlank).rtakeWhile Text.isPadding = line.takeWhile Text.isBlank :=
          List.rdropWhile_append_rtakeWhile
        rw [if_pos rfl, List.takeWhile_append_of_pos (isBlank_rdropWhile hindent)]
        generalize (stripAffordances (Text.trimStart line)).takeWhile Text.isBlank = blanks
        constructor
        · intro hkept _
          exact List.append_cancel_left (hkept.trans hpadding.symm)
        · intro hkept
          rw [hkept rfl, hpadding]

theorem indentation_kept_iff_of_item :
    (stripAffordances "    <li tabIndex=\x7b0\x7d>").takeWhile Text.isBlank = "    " ∧
      (stripAffordances "    role=\"button\" id=\"x\"").takeWhile Text.isBlank ≠ "    " := by
  have hitem := indentation_kept_iff "    <li tabIndex=\x7b0\x7d>" (by decide)
  have hbutton := indentation_kept_iff "    role=\"button\" id=\"x\"" (by decide)
  refine ⟨(hitem.2 (by decide)).2.2 (fun hleads ↦ absurd hleads (by decide)), fun hkept ↦ ?_⟩
  have hblanks := (hbutton.2 (by decide)).2.1 hkept (by decide)
  revert hblanks
  decide

/-- The space between two attributes becomes the indentation when the first of them goes. -/
theorem indentation_taken :
    stripAffordances "    role=\"button\" id=\"x\"" = " id=\"x\"" := by
  decide

end CanvasLift.Canvas
