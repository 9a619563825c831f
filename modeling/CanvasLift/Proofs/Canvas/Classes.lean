import CanvasLift.Proofs.Canvas.Indentation
import CanvasLift.Proofs.Canvas.Spaces

namespace CanvasLift.Canvas

open Pattern

variable {t u v w rest classes : Text} {last : Option Char} {x : Char}

/-- A canvas class stands in a text, and not as a part of a longer class. -/
def HoldsCanvasClass (t : Text) : Prop := ∃ w ∈ canvasClasses, Text.StandsAlone isClassChar w t

theorem isClassChar_of_isBlank {c : Char} (h : Text.isBlank c = true) : isClassChar c = false := by
  have hmarks : c ≠ ':' ∧ c ≠ '-' := by
    constructor <;> (rintro rfl; revert h; decide)
  simp [isClassChar, isWord_of_isBlank h, hmarks]

theorem canvasClasses_ne_nil : ∀ w ∈ canvasClasses, w ≠ [] := by decide

theorem isClassChar_of_mem (h : w ∈ canvasClasses) : ∀ c ∈ w, isClassChar c = true := by
  have hall : ∀ w ∈ canvasClasses, w.all (fun c ↦ decide (isClassChar c = true)) = true := by decide
  exact Text.forall_mem_of_all (hall w h)

theorem holdsCanvasClass_append_cons_iff (hx : isClassChar x = false) :
    HoldsCanvasClass (u ++ x :: v) ↔ HoldsCanvasClass u ∨ HoldsCanvasClass v := by
  constructor
  · rintro ⟨w, hw, halone⟩
    exact ((Text.standsAlone_append_cons_iff (isClassChar_of_mem hw) hx).1 halone).imp
      (fun h ↦ ⟨w, hw, h⟩) fun h ↦ ⟨w, hw, h⟩
  · rintro (⟨w, hw, h⟩ | ⟨w, hw, h⟩)
    · exact ⟨w, hw, (Text.standsAlone_append_cons_iff (isClassChar_of_mem hw) hx).2 (.inl h)⟩
    · exact ⟨w, hw, (Text.standsAlone_append_cons_iff (isClassChar_of_mem hw) hx).2 (.inr h)⟩

theorem holdsCanvasClass_stretch_iff (hu : ∀ c ∈ u, isClassChar c = true) :
    HoldsCanvasClass u ↔ u ∈ canvasClasses := by
  constructor
  · rintro ⟨w, hw, halone⟩
    exact (Text.standsAlone_stretch_iff hu).1 halone ▸ hw
  · exact fun h ↦ ⟨u, h, (Text.standsAlone_stretch_iff hu).2 rfl⟩

theorem holdsCanvasClass_iff_runs :
    HoldsCanvasClass t ↔ ∃ w ∈ canvasClasses, w ∈ Text.runs isClassChar t := by
  refine exists_congr fun w ↦ and_congr_right fun hw ↦ ?_
  exact (Text.mem_runs_iff (isClassChar_of_mem hw) (canvasClasses_ne_nil w hw)).symm

theorem takes_canvasClass {taken : Text} : canvasClass.Takes last taken rest ↔
    taken ∈ canvasClasses ∧ last.any isClassChar = false ∧ rest.head?.any isClassChar = false := by
  constructor
  · rintro ⟨_, _, rfl, ⟨rfl, hlast⟩, word, _, rfl, hword, _, _, rfl, ⟨rfl, hrest⟩, rfl⟩
    refine ⟨?_, by simpa using hlast, by simpa using hrest⟩
    simpa using takes_oneOf.1 hword
  · rintro ⟨hword, hlast, hrest⟩
    refine takes_chain_skip ⟨rfl, by simpa using hlast⟩ ?_
    have htaken : (chain [oneOf canvasClasses, between fun _ r ↦ !r.any isClassChar]).Takes last
        (taken ++ []) rest :=
      takes_chain_append (takes_oneOf.2 hword) (takes_chain_singleton ⟨rfl, by simpa using hrest⟩)
    rwa [List.append_nil] at htaken

theorem pieces_kept (hx : isClassChar x = false) (last : Option Char) (rest : Text) :
    canvasClass.piecesAfter 0 last (x :: rest) = .kept x :: canvasClass.piecesAfter 0 (some x) rest := by
  refine piecesAfter_cons fun taken more heq htakes ↦ ?_
  obtain ⟨hword, -, -⟩ := takes_canvasClass.1 htakes
  obtain ⟨c, word, rfl⟩ := List.exists_cons_of_ne_nil (canvasClasses_ne_nil _ hword)
  obtain ⟨rfl, -⟩ := List.cons.inj heq
  rw [isClassChar_of_mem hword x List.mem_cons_self] at hx
  cases hx

theorem pieces_inside (hlast : last.any isClassChar = true) (hw : ∀ c ∈ w, isClassChar c = true)
    (rest : Text) : canvasClass.piecesAfter 0 last (w ++ rest) =
      w.map .kept ++ canvasClass.piecesAfter 0 (lastOver last w) rest := by
  induction w generalizing last with
  | nil => rfl
  | cons c w ih =>
    obtain ⟨hc, hw⟩ := List.forall_mem_cons.1 hw
    have hsome : (some c).any isClassChar = true := hc
    rw [List.cons_append, piecesAfter_cons, ih hsome hw, lastOver_cons]
    · rfl
    · intro taken more _ htakes
      rw [(takes_canvasClass.1 htakes).2.1] at hlast
      cases hlast

/-- A whole stretch of class characters is a match if it is a canvas class, and kept otherwise. -/
theorem pieces_stretch (hlast : last.any isClassChar = false) (hw : ∀ c ∈ w, isClassChar c = true)
    (hrest : rest.head?.any isClassChar = false) : canvasClass.piecesAfter 0 last (w ++ rest) =
      (if w ∈ canvasClasses then [.hit w []] else w.map .kept) ++
        canvasClass.piecesAfter 0 (lastOver last w) rest := by
  have hwhole : ∀ taken more, w ++ rest = taken ++ more → canvasClass.Takes last taken more →
      taken = w := by
    intro taken more heq htakes
    obtain ⟨hword, -, hmore⟩ := takes_canvasClass.1 htakes
    have htake {u v : Text} (hu : ∀ c ∈ u, isClassChar c = true) (hv : v.head?.any isClassChar = false) :
        (u ++ v).takeWhile isClassChar = u :=
      (Text.takeWhile_append_of_head hu fun c hc ↦ by simpa [Option.mem_def.1 hc] using hv).1
    rw [← htake hw hrest, heq, htake (isClassChar_of_mem hword) hmore]
  by_cases hword : w ∈ canvasClasses
  · obtain ⟨d, hd, -, hpieces⟩ := piecesAfter_append (canvasClasses_ne_nil w hword)
      (takes_canvasClass.2 ⟨hword, hlast, hrest⟩) hwhole
    have hnothing : canvasClass.capturesNothing = true := by decide
    rw [hpieces, if_pos hword, captured_of_mem_ends hnothing hd]
    rfl
  · rw [if_neg hword]
    cases w with
    | nil => rfl
    | cons c w =>
      obtain ⟨hc, hw⟩ := List.forall_mem_cons.1 hw
      have hsome : (some c).any isClassChar = true := hc
      rw [List.cons_append, piecesAfter_cons, pieces_inside hsome hw, lastOver_cons]
      · rfl
      · intro taken more heq htakes
        exact hword (hwhole taken more heq htakes ▸ (takes_canvasClass.1 htakes).1)

theorem pieces_after (hlast : last.any isClassChar = false) (t : Text) :
    canvasClass.piecesAfter 0 last t = canvasClass.pieces t := by
  obtain ⟨w, rest, rfl, hw, hrest⟩ := Text.exists_stretch isClassChar t
  rw [pieces, pieces_stretch hlast hw hrest, pieces_stretch rfl hw hrest]
  cases rest with
  | nil => rfl
  | cons x rest =>
    have hx : isClassChar x = false := by simpa using hrest
    rw [pieces_kept hx, pieces_kept hx]

theorem erase_stretch (hw : ∀ c ∈ w, isClassChar c = true) :
    canvasClass.erase w = if w ∈ canvasClasses then [] else w := by
  have hpieces : canvasClass.piecesAfter 0 none (w ++ []) = _ := pieces_stretch rfl hw rfl
  rw [List.append_nil] at hpieces
  rw [erase, replace, pieces, hpieces]
  split <;> simp [piecesAfter, List.flatMap_map]

theorem erase_stretch_append_cons (hw : ∀ c ∈ w, isClassChar c = true) (hx : isClassChar x = false)
    (rest : Text) : canvasClass.erase (w ++ x :: rest) =
      canvasClass.erase w ++ x :: canvasClass.erase rest := by
  have hpieces : canvasClass.piecesAfter 0 none (w ++ x :: rest) = _ :=
    pieces_stretch rfl hw (by simpa using hx)
  have hafter : (some x).any isClassChar = false := hx
  rw [pieces_kept hx, pieces_after hafter] at hpieces
  rw [erase_stretch hw, erase, replace, pieces, hpieces, List.flatMap_append, List.flatMap_cons]
  split <;> simp [erase, replace, List.flatMap_map]

/-- The classes on the two sides of a character that no class has are erased on their own. -/
theorem erase_append_cons (hx : isClassChar x = false) (u v : Text) :
    canvasClass.erase (u ++ x :: v) = canvasClass.erase u ++ x :: canvasClass.erase v := by
  induction u using Text.stretchInduction isClassChar with
  | stretch w hw => exact erase_stretch_append_cons hw hx v
  | cut w y u hw hy ih =>
    rw [List.append_assoc, List.cons_append, erase_stretch_append_cons hw hy,
      erase_stretch_append_cons hw hy, ih]
    simp

theorem not_holdsCanvasClass_erase (t : Text) : ¬ HoldsCanvasClass (canvasClass.erase t) := by
  have hstretch : ∀ {w : Text}, (∀ c ∈ w, isClassChar c = true) →
      ¬ HoldsCanvasClass (canvasClass.erase w) := by
    intro w hw
    rw [erase_stretch hw]
    split
    · rw [holdsCanvasClass_stretch_iff (by simp)]
      decide
    · next hword => rwa [holdsCanvasClass_stretch_iff hw]
  induction t using Text.stretchInduction isClassChar with
  | stretch w hw => exact hstretch hw
  | cut w x rest hw hx ih =>
    rw [erase_append_cons hx, holdsCanvasClass_append_cons_iff hx]
    exact not_or.2 ⟨hstretch hw, ih⟩

theorem erase_eq_self (h : ¬ HoldsCanvasClass t) : canvasClass.erase t = t := by
  induction t using Text.stretchInduction isClassChar with
  | stretch w hw => rw [erase_stretch hw, if_neg (mt (holdsCanvasClass_stretch_iff hw).2 h)]
  | cut w x rest hw hx ih =>
    rw [holdsCanvasClass_append_cons_iff hx, holdsCanvasClass_stretch_iff hw, not_or] at h
    rw [erase_append_cons hx, erase_stretch hw, if_neg h.1, ih h.2]

theorem words_erase (t : Text) : Text.words (canvasClass.erase t) =
    ((Text.words t).map canvasClass.erase).filter (· ≠ []) := by
  have hsolid : ∀ {w : Text}, (∀ c ∈ w, (!Text.isBlank c) = true) →
      ∀ c ∈ canvasClass.erase w, (!Text.isBlank c) = true := fun hw c hc ↦
    hw c ((erase_sublist canvasClass _).subset hc)
  have hword : ∀ {w : Text}, (∀ c ∈ w, (!Text.isBlank c) = true) →
      Text.words (canvasClass.erase w) = ((Text.words w).map canvasClass.erase).filter (· ≠ []) := by
    intro w hw
    rw [Text.words, Text.words, Text.runs_of_stretch (hsolid hw), Text.runs_of_stretch hw]
    by_cases hnil : w = []
    · subst hnil
      rfl
    · rw [if_neg hnil]
      by_cases hgone : canvasClass.erase w = [] <;> simp [hgone]
  induction t using Text.stretchInduction fun c ↦ !Text.isBlank c with
  | stretch w hw => exact hword hw
  | cut w x rest hw hx ih =>
    have hclass : isClassChar x = false := isClassChar_of_isBlank (by simpa using hx)
    rw [erase_append_cons hclass, Text.words, Text.words, Text.runs_append_cons hx,
      Text.runs_append_cons hx, List.map_append, List.filter_append]
    exact congrArg₂ (· ++ ·) (hword hw) ih

theorem words_cleanClasses (classes : Text) : Text.words (cleanClasses classes) =
    ((Text.words classes).map canvasClass.erase).filter (· ≠ []) := by
  rw [← words_erase, cleanClasses, Text.words_trim, Text.words, runs_collapseSpaces (by decide)]
  rfl

theorem not_holdsCanvasClass_cleanClasses (classes : Text) :
    ¬ HoldsCanvasClass (cleanClasses classes) := by
  rw [holdsCanvasClass_iff_runs, cleanClasses, Text.runs_trim fun _ ↦ isClassChar_of_isBlank,
    runs_collapseSpaces (by decide), ← holdsCanvasClass_iff_runs]
  exact not_holdsCanvasClass_erase classes

theorem not_double_cleanClasses (classes : Text) : ¬ [' ', ' '] <:+: cleanClasses classes :=
  fun h ↦ not_double_collapseSpaces _ (h.trans (Text.trim_infix _))

theorem cleanClasses_eq_self (hclass : ¬ HoldsCanvasClass t) (hdouble : ¬ [' ', ' '] <:+: t)
    (htrim : Text.IsTrimmed t) : cleanClasses t = t := by
  rw [cleanClasses, erase_eq_self hclass, collapseSpaces_eq_self hdouble, Text.trim_eq_self htrim]

theorem sublist_words_cleanClasses {kept : List Text} (h : kept.Sublist (Text.words classes))
    (hkept : ∀ w ∈ kept, ¬ HoldsCanvasClass w) : kept.Sublist (Text.words (cleanClasses classes)) := by
  have hmap : kept.map canvasClass.erase = kept := by
    refine (List.map_congr_left fun w hw ↦ ?_).trans (List.map_id kept)
    exact erase_eq_self (hkept w hw)
  have hfilter : kept.filter (· ≠ []) = kept := by
    refine List.filter_eq_self.2 fun w hw ↦ ?_
    exact (List.mem_filter.1 (h.subset hw)).2
  rw [words_cleanClasses, ← hfilter]
  refine List.Sublist.filter _ ?_
  rw [← hmap]
  exact h.map _

theorem rewriteClasses_infix {line : Text} (h : classes ∈ classAttribute.captures line) :
    rewriteClasses classes <:+: cleanClassAttributes line := by
  obtain ⟨piece, hpiece, hclasses⟩ := List.mem_filterMap.1 h
  obtain ⟨before, after, hpieces⟩ := List.append_of_mem hpiece
  cases piece with
  | kept c => cases hclasses
  | hit text captured =>
    obtain rfl := Option.some.inj hclasses
    rw [cleanClassAttributes_eq, replace, hpieces, List.flatMap_append, List.flatMap_cons]
    exact ⟨_, _, List.append_assoc ..⟩

theorem infix_tidy {c d : Char} {middle line : Text} (hc : Text.isBlank c = false)
    (hd : Text.isBlank d = false) (hmiddle : ¬ [' ', ' '] <:+: middle)
    (h : c :: (middle ++ [d]) <:+: line) : c :: (middle ++ [d]) <:+: tidy line := by
  obtain ⟨front, back, rfl⟩ := h
  have hspace : ∀ {x : Char}, Text.isBlank x = false → x ≠ ' ' := by
    rintro x hx rfl
    exact absurd hx (by decide)
  obtain ⟨front', hstart⟩ : ∃ front', Text.trimStart (front ++ c :: (middle ++ [d]) ++ back) =
      front' ++ c :: (middle ++ d :: back) := by
    have hsplit : front ++ c :: (middle ++ [d]) ++ back = front ++ c :: (middle ++ d :: back) := by simp
    rw [hsplit]
    by_cases hnil : Text.trimStart front = []
    · rw [Text.trimStart_append_of_nil hnil]
      exact ⟨[], List.dropWhile_cons_of_neg (by simp [hc])⟩
    · exact ⟨_, Text.trimStart_append hnil _⟩
  have hsolid : Text.allBlank (front ++ c :: (middle ++ [d]) ++ back) = false := by
    simp [Text.allBlank, hc]
  have hcollapsed : collapseSpaces (front' ++ c :: (middle ++ d :: back)) =
      (collapseSpaces front' ++ c :: middle) ++ d :: collapseSpaces back := by
    rw [collapseSpaces_append_cons (hspace hc), collapseSpaces_append_cons (hspace hd),
      collapseSpaces_eq_self hmiddle]
    simp
  rw [tidy_eq, hsolid, if_neg Bool.false_ne_true, hstart, hcollapsed, Text.trimEnd_append_cons hd]
  generalize List.takeWhile Text.isBlank _ = indent
  exact ⟨indent ++ collapseSpaces front', Text.trimEnd (collapseSpaces back), by simp⟩

theorem allBlank_of_sublist (h : u.Sublist t) (ht : Text.allBlank t = true) :
    Text.allBlank u = true := by
  rw [Text.allBlank, List.all_eq_true] at ht ⊢
  exact fun c hc ↦ ht c (h.subset hc)

/-- The classes of an attribute are still what they were cleaned to when the line is tidied. -/
theorem rewriteClasses_infix_stripAffordances {line : Text}
    (h : classes ∈ classAttribute.captures (eraseAttributes line)) :
    rewriteClasses classes <:+: stripAffordances line := by
  have hpart := rewriteClasses_infix h
  have hparts : rewriteClasses classes =
      'c' :: (("lassName=" ++ '"' :: cleanClasses classes) ++ ['"']) := by
    rw [rewriteClasses, Attribute.text]
    simp
  have hmiddle : ¬ [' ', ' '] <:+: ("lassName=" ++ '"' :: cleanClasses classes : Text) := by
    have hquote : '"' ∉ [' ', ' '] := by decide
    have hname : ' ' ∉ ("lassName=" : Text) := by decide
    rw [Text.infix_append_cons_iff hquote]
    exact not_or.2 ⟨fun h ↦ hname (h.subset List.mem_cons_self), not_double_cleanClasses classes⟩
  rw [hparts] at hpart ⊢
  have hsolid : Text.allBlank line = false := by
    rw [← Bool.not_eq_true]
    intro hblank
    have herased : (eraseAttributes line).Sublist line :=
      (erase_sublist tabStop _).trans ((erase_sublist roleButton _).trans (erase_sublist handler line))
    have hclean := allBlank_of_sublist herased hblank
    rw [← allBlank_cleanClassAttributes] at hclean
    have hc := List.all_eq_true.1 hclean 'c' (hpart.subset List.mem_cons_self)
    exact absurd hc (by decide)
  rw [stripAffordances_of_not_blank hsolid]
  exact infix_tidy (by decide) (by decide) hmiddle hpart

theorem cleanClassAttributes_quoted (h : '"' ∉ classes) :
    cleanClassAttributes (Attribute.quoted "className" classes).text =
      (Attribute.quoted "className" (cleanClasses classes)).text := by
  have hnone : '=' ∉ ([] : Text) := List.not_mem_nil
  have hfound : classAttribute.replace rewriteClasses
      ([] ++ (("className" : Text) ++ '=' :: '"' :: (classes ++ ['"']))) = _ :=
    finds_classAttribute.replace_behind (fun _ ↦ rfl) hnone h
      fun d hd ↦ congrArg rewriteClasses (captured_classAttribute h hd)
  rw [List.nil_append, ← text_quoted_append, List.append_nil] at hfound
  have hnil : classAttribute.replace rewriteClasses [] = [] := rfl
  rw [cleanClassAttributes_eq, hfound, hnil, List.nil_append, List.append_nil, rewriteClasses]

/-- One pass cleans a class string: the attribute that is left has no canvas class, no two spaces next to
each other and nothing blank around it, and another pass changes nothing. Of the words, canvas classes
alone are taken out, so that the words without them are there in their order. -/
theorem classes_cleaned (classes : Text) (h : '"' ∉ classes) :
    (∀ line, classes ∈ classAttribute.captures (eraseAttributes line) →
      (Attribute.quoted "className" (cleanClasses classes)).text <:+: stripAffordances line) ∧
    cleanClassAttributes (Attribute.quoted "className" classes).text =
      (Attribute.quoted "className" (cleanClasses classes)).text ∧
    ¬ HoldsCanvasClass (cleanClasses classes) ∧
    ¬ [' ', ' '] <:+: cleanClasses classes ∧ Text.IsTrimmed (cleanClasses classes) ∧
    cleanClasses (cleanClasses classes) = cleanClasses classes ∧
    Text.words (cleanClasses classes) =
      ((Text.words classes).map canvasClass.erase).filter (· ≠ []) ∧
    ∀ kept : List Text, kept.Sublist (Text.words classes) → (∀ w ∈ kept, ¬ HoldsCanvasClass w) →
      kept.Sublist (Text.words (cleanClasses classes)) := by
  have hclass := not_holdsCanvasClass_cleanClasses classes
  have hdouble := not_double_cleanClasses classes
  have htrim : Text.IsTrimmed (cleanClasses classes) := Text.isTrimmed_trim _
  exact ⟨fun line hline ↦ rewriteClasses_infix_stripAffordances hline, cleanClassAttributes_quoted h,
    hclass, hdouble, htrim, cleanClasses_eq_self hclass hdouble htrim, words_cleanClasses classes,
    fun kept ↦ sublist_words_cleanClasses⟩

/-- A class with a variant before it is not a canvas class, and one with a dot before it is. -/
theorem classes_cleaned_variants :
    '"' ∉ ("md:cursor-move  cursor-move a.cursor-move p-2 " : Text) ∧
      cleanClasses "md:cursor-move  cursor-move a.cursor-move p-2 " = "md:cursor-move a. p-2" ∧
      ¬ HoldsCanvasClass (cleanClasses "md:cursor-move  cursor-move a.cursor-move p-2 ") := by
  have hquote : '"' ∉ ("md:cursor-move  cursor-move a.cursor-move p-2 " : Text) := by decide
  exact ⟨hquote, by decide +kernel, (classes_cleaned _ hquote).2.2.1⟩

end CanvasLift.Canvas
