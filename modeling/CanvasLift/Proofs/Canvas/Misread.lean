import CanvasLift.Proofs.Canvas.Affordance

namespace CanvasLift.Canvas

open Pattern
open Attribute (isLabelChar HoldsAttribute)

variable {t u v rest : Text} {b : Attribute}

theorem collapseSpaces_sublist (t : Text) : (collapseSpaces t).Sublist t := by
  refine replace_sublist fun text captured h ↦ ?_
  obtain ⟨last, rest, space, more, rfl, hspace, -⟩ := takes_of_mem_hit h
  rw [takes_literal.1 hspace]
  exact List.sublist_append_left _ _

theorem cleanClasses_sublist (classes : Text) : (cleanClasses classes).Sublist classes :=
  (Text.trim_sublist _).trans ((collapseSpaces_sublist _).trans (erase_sublist canvasClass classes))

theorem cleanClassAttributes_sublist (line : Text) : (cleanClassAttributes line).Sublist line := by
  rw [cleanClassAttributes_eq]
  refine replace_sublist fun text captured h ↦ ?_
  obtain ⟨here, d, -, -, hd, hreaches, rfl, -⟩ := exists_end?_of_mem_hit h
  rw [end?_eq_head?] at hd
  have hafter := (after_classAttribute (List.mem_of_head? hd)).1
  have htext : text = (Attribute.quoted "className" d.captured).text := by
    rw [hreaches.after, ← text_quoted_append] at hafter
    exact List.append_cancel_right hafter
  rw [htext, rewriteClasses]
  have hclean := (cleanClasses_sublist d.captured).append_right ['"']
  exact List.Sublist.append (.refl ("className" : Text)) ((hclean.cons_cons '"').cons_cons '=')

theorem tidy_sublist (line : Text) : (tidy line).Sublist line := by
  rw [tidy]
  split
  · exact List.nil_sublist line
  · have hcontent := (Text.trimEnd_sublist _).trans (collapseSpaces_sublist (Text.trimStart line))
    have hsplit : line.takeWhile Text.isBlank ++ Text.trimStart line = line :=
      List.takeWhile_append_dropWhile
    have hline := (List.Sublist.refl (line.takeWhile Text.isBlank)).append hcontent
    rwa [hsplit] at hline

section

variable {a : Pattern} {p : Char → Bool} {word : Text} {opening closing : Char} {IsValue : Text → Prop}
  {f : Text → Text} (h : Finds a p word opening closing IsValue)
include h

theorem Finds.equals_mem {last : Option Char} {taken : Text} (htaken : a.Takes last taken rest) :
    '=' ∈ taken := by
  obtain ⟨front, value, rfl, -⟩ := h.takes_iff.1 htaken
  simp

theorem Finds.occursIn_of {value : Text} (hvalue : IsValue value) (u rest : Text) :
    a.occursIn (u ++ (word ++ '=' :: opening :: (value ++ closing :: rest))) = true := by
  rw [occursIn_iff]
  exact ⟨u, _, rest, by simp, h.takes_iff.2 ⟨[], value, rfl, by simp, hvalue⟩⟩

/-- A pass takes an equals sign away with everything that it takes out. -/
theorem Finds.count_erase_add_le (t : Text) :
    (a.erase t).count '=' + (a.captures t).length ≤ t.count '=' :=
  count_replace_add_le (fun _ _ _ ↦ h.equals_mem) (fun _ ↦ List.not_mem_nil) t

theorem Finds.captures_eq_nil_iff : a.captures t = [] ↔ a.occursIn t = false := by
  refine Pattern.captures_eq_nil_iff fun last rest htakes ↦ ?_
  have hmem := h.equals_mem htakes
  cases hmem

theorem Finds.replace_link_append (hhead : word.head? ≠ some '<' ∧ word.head? ≠ some 'a') (t : Text) :
    a.replace f ('<' :: 'a' :: t) = '<' :: 'a' :: a.replace f t := by
  have hstart : ∀ (c : Char) t, Text.isPadding c = false → word.head? ≠ some c →
      a.opens (c :: t) = false := by
    intro c t hpadding hword
    rw [← Bool.not_eq_true, h.opens_iff]
    rintro ⟨front, value, rest, heq, hfront, -⟩
    cases front with
    | nil =>
      obtain ⟨d, word, rfl⟩ := List.exists_cons_of_ne_nil h.ne_nil
      obtain ⟨rfl, -⟩ := List.cons.inj heq
      exact hword rfl
    | cons d front =>
      obtain ⟨rfl, -⟩ := List.cons.inj heq
      rw [h.isPadding_of c (hfront c List.mem_cons_self)] at hpadding
      cases hpadding
  rw [replace_cons h.isPlain f (hstart '<' _ (by decide) hhead.1),
    replace_cons h.isPlain f (hstart 'a' _ (by decide) hhead.2)]

theorem Finds.replace_of_not_holdsAttribute (hopening : opening = '"' ∨ opening = '\x7b')
    (hnone : ¬ HoldsAttribute t) : a.replace f t = t := by
  refine replace_eq_of_not_opens h.isPlain f fun w hw _ ↦ ?_
  rw [← Bool.not_eq_true, h.opens_iff]
  rintro ⟨front, value, rest, rfl, -⟩
  obtain ⟨u, rfl⟩ := hw
  exact hnone (h.holdsAttribute hopening (List.append_assoc u front _).symm)

end

theorem eraseAttributes_of_count (hcount : t.count '=' ≤ (eraseAttributes t).count '=') :
    eraseAttributes t = t ∧ handler.occursIn t = false ∧ roleButton.occursIn t = false ∧
      tabStop.occursIn t = false := by
  rw [eraseAttributes_eq] at hcount ⊢
  have hfirst := finds_handler.count_erase_add_le t
  have hsecond := finds_roleButton.count_erase_add_le (handler.erase t)
  have hthird := finds_tabStop.count_erase_add_le (roleButton.erase (handler.erase t))
  have hhandler : handler.captures t = [] := List.length_eq_zero_iff.1 (by omega)
  have hhandler' : handler.erase t = t := replace_eq_self hhandler _
  rw [hhandler'] at hcount hsecond hthird ⊢
  have hrole : roleButton.captures t = [] := List.length_eq_zero_iff.1 (by omega)
  have hrole' : roleButton.erase t = t := replace_eq_self hrole _
  rw [hrole'] at hcount hthird ⊢
  have htab : tabStop.captures t = [] := List.length_eq_zero_iff.1 (by omega)
  exact ⟨replace_eq_self htab _, finds_handler.captures_eq_nil_iff.1 hhandler,
    finds_roleButton.captures_eq_nil_iff.1 hrole, finds_tabStop.captures_eq_nil_iff.1 htab⟩

theorem TagLine.not_occursIn (line : TagLine) (hcanvas : ∀ b ∈ line.attributes, isCanvas b = false)
    (hstripped : stripAffordances line.text = line.stripped) :
    eraseAttributes line.text = line.text ∧ handler.occursIn line.text = false ∧
      roleButton.occursIn line.text = false ∧ tabStop.occursIn line.text = false := by
  have hkept : line.attributes.filter (!isCanvas ·) = line.attributes :=
    List.filter_eq_self.2 fun b hb ↦ by simp [hcanvas b hb]
  have hequals : line.stripped.count '=' = line.text.count '=' := by
    have hother : ∀ {q : Char → Bool}, q '=' = false → ∀ c, q c = true → (c == '=') = false := by
      intro q hq c hc
      rw [beq_eq_false_iff_ne]
      rintro rfl
      rw [hq] at hc
      cases hc
    have hfilter := line.filter_stripped (hother (q := isClassChar) (by decide))
      (hother (q := Text.isBlank) (by decide))
    rw [hkept] at hfilter
    rw [List.count_eq_countP, List.count_eq_countP, List.countP_eq_length_filter,
      List.countP_eq_length_filter, hfilter, TagLine.text]
  refine eraseAttributes_of_count ?_
  rw [← hequals, ← hstripped, stripAffordances, if_neg (by simp [line.allBlank_text])]
  exact ((tidy_sublist _).trans (cleanClassAttributes_sublist _)).count_le _

def TagLine.link (attributes : List Attribute) (hwritten : ∀ b ∈ attributes, b.Written) : TagLine where
  indentation := []
  tag := ['a']
  attributes := attributes
  closing := ['>']
  isBlank_of_mem := by simp
  isBlank_tag := Text.forall_mem_of_all (by decide)
  written := hwritten
  closing_eq := ⟨[], by simp, .inl rfl⟩

theorem EndsBeyond.suffix {word : Text} (h : EndsBeyond word t) : word <:+ t := by
  obtain ⟨front, -, rfl⟩ := h
  exact List.suffix_append front word

theorem EndsBeyond.ne {word : Text} (h : EndsBeyond word t) : t ≠ word := by
  obtain ⟨front, hne, rfl⟩ := h
  exact fun heq ↦ hne (List.append_left_eq_self.1 heq)

/-- Whether a line with the attribute is stripped as it should be whenever its other attributes are
clear. -/
def Exact (b : Attribute) : Prop :=
  ∀ line : TagLine, b ∈ line.attributes → (∀ d ∈ line.attributes, d ≠ b → Clear d) →
    stripAffordances line.text = line.stripped

theorem handler_occursIn (u : Text) (hhead : t.head? ≠ some '\x7d') (hmem : '\x7d' ∈ t)
    (hline : '\n' ∉ t) :
    handler.occursIn (u ++ ("onMouseDown" ++ '=' :: '\x7b' :: t)) = true := by
  obtain ⟨value, rest, rfl, hvalue⟩ := List.eq_append_cons_of_mem hmem
  refine finds_handler.occursIn_of ⟨?_, fun c hc ↦ ⟨?_, ?_⟩⟩ u rest
  · rintro rfl
    exact hhead rfl
  · rintro rfl
    exact hvalue hc
  · rintro rfl
    exact hline (List.mem_append_left _ hc)

def beside (b d : Attribute) : Text := '<' :: 'a' :: ' ' :: (b.text ++ ' ' :: (d.text ++ ['>']))

theorem Exact.beside {d : Attribute} (h : Exact b) (hb : b.Written) (hcanvas : isCanvas b = false)
    (hd : d.Written) (hclear : Clear d) (hdcanvas : isCanvas d = false) :
    handler.occursIn (beside b d) = false ∧ roleButton.occursIn (beside b d) = false ∧
      tabStop.occursIn (beside b d) = false ∧
      tidy (cleanClassAttributes (beside b d)) = collapseSpaces (beside (cleaned b) (cleaned d)) := by
  have hpair : ∀ e, e ∈ [b, d] → e = b ∨ e = d := by simp
  have hwritten : ∀ e ∈ [b, d], e.Written := fun e he ↦ (hpair e he).elim (· ▸ hb) (· ▸ hd)
  have hnone : ∀ e ∈ [b, d], isCanvas e = false := fun e he ↦
    (hpair e he).elim (· ▸ hcanvas) (· ▸ hdcanvas)
  let line := TagLine.link [b, d] hwritten
  have htext : ∀ b d : Attribute,
      '<' :: (['a'] ++ (attributesText [b, d] ++ ['>'])) = Canvas.beside b d := by
    intro b d
    simp [attributesText, Canvas.beside]
  have hline : line.text = Canvas.beside b d := htext b d
  have hstripped : stripAffordances line.text = line.stripped := by
    refine h line List.mem_cons_self fun e he hne ↦ ?_
    obtain rfl := (hpair e he).resolve_left hne
    exact hclear
  obtain ⟨herase, hhandler, hrole, htab⟩ := line.not_occursIn hnone hstripped
  have hkept : line.attributes.filter (!isCanvas ·) = line.attributes :=
    List.filter_eq_self.2 fun e he ↦ by simp [hnone e he]
  rw [TagLine.stripped, hkept] at hstripped
  rw [stripAffordances, if_neg (by simp [line.allBlank_text]), herase] at hstripped
  rw [hline] at hhandler hrole htab hstripped
  refine ⟨hhandler, hrole, htab, hstripped.trans ?_⟩
  exact congrArg collapseSpaces (htext (cleaned b) (cleaned d))

theorem tidy_link (t : Text) :
    tidy ('<' :: 'a' :: (t ++ ['>'])) = collapseSpaces ('<' :: 'a' :: (t ++ ['>'])) :=
  tidy_textWith (.link [] (by simp)) t

theorem tidy_beside (b d : Attribute) : tidy (beside b d) = collapseSpaces (beside b d) := by
  have htext : Canvas.beside b d = '<' :: 'a' :: ((' ' :: (b.text ++ ' ' :: d.text)) ++ ['>']) := by
    simp [beside]
  rw [htext, tidy_link]

def plain : Attribute := .braced "x" "y"

theorem not_holdsAttribute_of_not_mem (h : '=' ∉ t) : ¬ HoldsAttribute t := by
  rintro ⟨u, c, mark, v, rfl, -⟩
  simp at h

theorem written_quoted {name value : Text} (hne : name ≠ []) (hname : name.all isLabelChar = true)
    (hline : '\n' ∉ value) (hquote : '"' ∉ value) : (Attribute.quoted name value).Written :=
  ⟨hne, List.all_eq_true.1 hname, hline, hquote⟩

theorem written_braced {name expression : Text} (hne : name ≠ []) (hname : name.all isLabelChar = true)
    (hline : '\n' ∉ expression) (hbalanced : Text.Balanced expression) (hnone : '=' ∉ expression) :
    (Attribute.braced name expression).Written :=
  ⟨hne, List.all_eq_true.1 hname, hline, hbalanced, not_holdsAttribute_of_not_mem hnone⟩

theorem written_plain : plain.Written :=
  written_braced (by decide) (by decide) (by decide) (by decide) (by decide)

theorem clear_plain : Clear plain :=
  ⟨fun h ↦ absurd h (by decide), fun h ↦ absurd h.suffix (by decide),
    fun h ↦ absurd h.suffix (by decide)⟩

theorem Exact.role_name {name value : Text} (h : Exact (.quoted name value))
    (hb : (Attribute.quoted name value).Written) (hname : EndsBeyond "role" name) :
    value ≠ "button" := by
  rintro rfl
  have hcanvas : isCanvas (.quoted name "button") = false := by
    rw [← Bool.not_eq_true, isCanvas_quoted]
    exact fun hrole ↦ hname.ne hrole.1
  obtain ⟨-, hrole, -⟩ := h.beside hb hcanvas written_plain clear_plain (by decide)
  obtain ⟨front, -, rfl⟩ := hname
  have htext : Canvas.beside (.quoted (front ++ "role") "button") plain =
      ('<' :: 'a' :: ' ' :: front) ++
        ("role" ++ '=' :: '"' :: ("button" ++ '"' :: ' ' :: (plain.text ++ ['>']))) := by
    simp [Canvas.beside, Attribute.text]
  rw [htext, finds_roleButton.occursIn_of rfl] at hrole
  cases hrole

theorem Exact.tabStop_in_value {name value : Text} (h : Exact (.quoted name value))
    (hb : (Attribute.quoted name value).Written) : ¬ ("tabIndex=\x7b0\x7d" : Text) <:+: value := by
  intro hinside
  have hcanvas : isCanvas (.quoted name value) = false := by
    rw [← Bool.not_eq_true, isCanvas_quoted]
    rintro ⟨-, rfl⟩
    exact absurd hinside (by decide)
  obtain ⟨-, -, htab, -⟩ := h.beside hb hcanvas written_plain clear_plain (by decide)
  obtain ⟨u, v, rfl⟩ := hinside
  have htext : Canvas.beside (.quoted name (u ++ "tabIndex=\x7b0\x7d" ++ v)) plain =
      ('<' :: 'a' :: ' ' :: (name ++ '=' :: '"' :: u)) ++
        ("tabIndex" ++ '=' :: '\x7b' ::
          ("0" ++ '\x7d' :: (v ++ '"' :: ' ' :: (plain.text ++ ['>'])))) := by
    simp [Canvas.beside, Attribute.text]
  rw [htext, finds_tabStop.occursIn_of rfl] at htab
  cases htab

theorem Exact.handler_in_value {name value : Text} (h : Exact (.quoted name value))
    (hb : (Attribute.quoted name value).Written)
    (hvalue : value = u ++ (("onMouseDown=\x7b" : Text) ++ v)) : v.head? = some '\x7d' := by
  refine Classical.not_not.1 fun hhead ↦ ?_
  have hcanvas : isCanvas (.quoted name value) = false := by
    rw [← Bool.not_eq_true, isCanvas_quoted]
    rintro ⟨-, rfl⟩
    have hmem : 'D' ∈ ("button" : Text) := hvalue ▸ by simp
    exact absurd hmem (by decide)
  obtain ⟨hhandler, -⟩ := h.beside hb hcanvas written_plain clear_plain (by decide)
  have hline : '\n' ∉ v := fun hmem ↦ hb.line (by simp [Attribute.value, hvalue, hmem])
  have htext : Canvas.beside (.quoted name value) plain =
      ('<' :: 'a' :: ' ' :: (name ++ '=' :: '"' :: u)) ++
        ("onMouseDown" ++ '=' :: '\x7b' :: (v ++ "\" x=\x7by\x7d>")) := by
    rw [hvalue]
    simp [Canvas.beside, Attribute.text, plain]
  rw [htext, handler_occursIn] at hhandler
  · cases hhandler
  · cases v with
    | nil => decide
    | cons c v => exact hhead
  · simp
  · simp [hline]

theorem Exact.handler_name {name expression : Text} (h : Exact (.braced name expression))
    (hb : (Attribute.braced name expression).Written) (hname : EndsBeyond "onMouseDown" name) :
    expression = [] := by
  refine Classical.not_not.1 fun hne ↦ ?_
  have hcanvas : isCanvas (.braced name expression) = false := by
    rw [← Bool.not_eq_true, isCanvas_braced]
    rintro (rfl | ⟨rfl, -⟩)
    · exact hname.ne rfl
    · exact absurd hname.suffix (by decide)
  obtain ⟨hhandler, -⟩ := h.beside hb hcanvas written_plain clear_plain (by decide)
  obtain ⟨front, -, rfl⟩ := hname
  obtain ⟨c, expression, rfl⟩ := List.exists_cons_of_ne_nil hne
  have hline : '\n' ∉ c :: expression := hb.line
  have htext : Canvas.beside (.braced (front ++ "onMouseDown") (c :: expression)) plain =
      ('<' :: 'a' :: ' ' :: front) ++
        ("onMouseDown" ++ '=' :: '\x7b' :: (c :: expression ++ "\x7d x=\x7by\x7d>")) := by
    simp [Canvas.beside, Attribute.text, plain]
  rw [htext, handler_occursIn] at hhandler
  · cases hhandler
  · intro hhead
    obtain rfl : c = '\x7d' := Option.some.inj hhead
    cases hb.ends.1
  · simp
  · simpa using hline

theorem Exact.tabStop_name {name expression : Text} (h : Exact (.braced name expression))
    (hb : (Attribute.braced name expression).Written) (hname : EndsBeyond "tabIndex" name) :
    expression ≠ "0" := by
  rintro rfl
  have hcanvas : isCanvas (.braced name "0") = false := by
    rw [← Bool.not_eq_true, isCanvas_braced]
    rintro (rfl | ⟨rfl, -⟩)
    · exact absurd hname.suffix (by decide)
    · exact hname.ne rfl
  obtain ⟨-, -, htab, -⟩ := h.beside hb hcanvas written_plain clear_plain (by decide)
  obtain ⟨front, -, rfl⟩ := hname
  have htext : Canvas.beside (.braced (front ++ "tabIndex") "0") plain =
      ('<' :: 'a' :: ' ' :: front) ++
        ("tabIndex" ++ '=' :: '\x7b' :: ("0" ++ '\x7d' :: ' ' :: (plain.text ++ ['>']))) := by
    simp [Canvas.beside, Attribute.text]
  rw [htext, finds_tabStop.occursIn_of rfl] at htab
  cases htab

theorem Exact.class_name {name value : Text} (h : Exact (.quoted name value))
    (hb : (Attribute.quoted name value).Written) (hname : EndsBeyond "className" name) :
    collapseSpaces (cleanClasses value) = collapseSpaces value := by
  have hcanvas : isCanvas (.quoted name value) = false := by
    rw [← Bool.not_eq_true, isCanvas_quoted]
    rintro ⟨rfl, -⟩
    exact absurd hname.suffix (by decide)
  have hcleaned : cleaned (.quoted name value) = .quoted name value := by
    rw [cleaned, if_neg hname.ne]
  obtain ⟨-, -, -, htidy⟩ := h.beside hb hcanvas written_plain clear_plain (by decide)
  have hclasses : cleanClassAttributes (Canvas.beside (.quoted name value) plain) =
      Canvas.beside (.quoted name (cleanClasses value)) plain := by
    obtain ⟨front, -, rfl⟩ := hname
    have hfront : '=' ∉ front := fun hmem ↦
      Attribute.not_mem_of_isLabelChar hb.isLabelChar_of_mem (c := '=') (by decide)
        (List.mem_append_left _ hmem)
    have hrest : classAttribute.replace rewriteClasses (' ' :: (plain.text ++ ['>'])) =
        ' ' :: (plain.text ++ ['>']) := by decide
    rw [cleanClassAttributes_eq, Canvas.beside, finds_classAttribute.replace_link_append (by decide),
      replace_classAttribute_of_suffix hfront hb.ends, hrest, Canvas.beside, rewriteClasses,
      text_quoted_append, text_quoted_append, List.append_assoc]
  have hlink : ∀ classes, Canvas.beside (.quoted name classes) plain = ['<', 'a'] ++
      ' ' :: ((Attribute.quoted name classes).text ++ ' ' :: (plain.text ++ ['>'])) := fun _ ↦ rfl
  rw [hclasses, tidy_beside, hcleaned, show cleaned plain = plain from rfl, hlink, hlink,
    collapseSpaces_quoted, collapseSpaces_quoted] at htidy
  exact List.append_cancel_right (List.cons.inj (List.append_cancel_left htidy)).2

def draggable : Attribute := .quoted "cursor-move" "y"

theorem written_draggable : draggable.Written :=
  written_quoted (by decide) (by decide) (by decide) (by decide)

theorem clear_quoted {name value : Text} (hrole : EndsBeyond "role" name → value ≠ "button")
    (hclass : EndsBeyond "className" name → collapseSpaces (cleanClasses value) = collapseSpaces value)
    (hvalue : '=' ∉ value) : Clear (.quoted name value) := by
  refine ⟨hrole, hclass, fun _ hends ↦ ?_, fun hinside ↦ ?_, ?_⟩
  · exact hvalue (hends.subset (by decide))
  · exact hvalue (hinside.subset (by decide))
  · rintro u v rfl
    simp at hvalue

theorem clear_draggable : Clear draggable :=
  clear_quoted (fun h ↦ absurd h.suffix (by decide)) (fun h ↦ absurd h.suffix (by decide)) (by decide)

theorem classAttribute_not_opens {name : Text} (hname : ¬ ("className" : Text) <:+ name)
    (hlabel : ∀ c ∈ name, isLabelChar c = true) (hu : '"' ∉ u) (w : Text)
    (hw : w <:+ ' ' :: (name ++ '=' :: '"' :: u)) (hne : w ≠ []) (rest : Text) :
    classAttribute.opens (w ++ ("className" ++ '=' :: '"' :: rest)) = false := by
  rw [← Bool.not_eq_true, finds_classAttribute.opens_iff]
  rintro ⟨front, value, more, heq, hfront, -⟩
  obtain rfl : front = [] := List.eq_nil_iff_forall_not_mem.2 fun c hc ↦ by cases hfront c hc
  have hsuffix : w ++ ("className=\"" : Text) <:+
      ' ' :: (name ++ '=' :: '"' :: ((u ++ "className=") ++ ['"'])) := by
    obtain ⟨s, hs⟩ := hw
    exact ⟨s, by rw [← List.append_assoc, hs]; simp⟩
  have heq' : (w ++ "className=\"") ++ rest = "className" ++ '=' :: '"' :: (value ++ '"' :: more) := by
    rw [List.append_assoc]
    exact heq
  rcases Attribute.cases_of_suffix hlabel finds_classAttribute.isLabelChar_of_mem (by decide)
      (by decide) hsuffix (by simp) heq' with ⟨front, rfl, -⟩ | ⟨x, y, hinside, -⟩ | ⟨-, hmore, -⟩
  · exact hname (List.suffix_append front _)
  · have hquote : '"' ∈ u ++ "className=" := hinside ▸ by simp
    exact (List.mem_append.1 hquote).elim hu (by decide)
  · have hword : w ++ "className=\"" = "className=\"" := by
      rw [hmore] at heq'
      exact List.append_cancel_right heq'
    exact hne (List.append_left_eq_self.1 hword)

theorem Exact.class_at_end {name value : Text} (h : Exact (.quoted name value))
    (hb : (Attribute.quoted name value).Written) (hname : ¬ ("className" : Text) <:+ name) :
    ¬ ("className=" : Text) <:+ value := by
  rintro ⟨u, rfl⟩
  have hcanvas : isCanvas (.quoted name (u ++ "className=")) = false := by
    rw [← Bool.not_eq_true, isCanvas_quoted]
    rintro ⟨-, hvalue⟩
    have hmem : '=' ∈ ("button" : Text) := hvalue ▸ by simp
    exact absurd hmem (by decide)
  have hcleaned : cleaned (.quoted name (u ++ "className=")) = .quoted name (u ++ "className=") := by
    rw [cleaned, if_neg]
    rintro rfl
    exact hname List.suffix_rfl
  have hquote : '"' ∉ u := fun hmem ↦ hb.ends (List.mem_append_left _ hmem)
  obtain ⟨-, -, -, htidy⟩ := h.beside hb hcanvas written_draggable clear_draggable (by decide)
  have htext : Canvas.beside (.quoted name (u ++ "className=")) draggable =
      '<' :: 'a' :: ((' ' :: (name ++ '=' :: '"' :: u)) ++
        ("className" ++ '=' :: '"' :: (" cursor-move=" ++ '"' :: "y\">"))) := by
    simp [Canvas.beside, Attribute.text, draggable]
  have hclasses : cleanClassAttributes (Canvas.beside (.quoted name (u ++ "className=")) draggable) =
      '<' :: 'a' :: (((' ' :: (name ++ '=' :: '"' :: u)) ++ "className=\"=\"y\"") ++ ['>']) := by
    have hfound : classAttribute.replace rewriteClasses
        ("className" ++ '=' :: '"' :: (" cursor-move=" ++ '"' :: "y\">")) = "className=\"=\"y\">" := by
      decide
    rw [htext, cleanClassAttributes_eq, finds_classAttribute.replace_link_append (by decide),
      replace_append_of_not_opens finds_classAttribute.isPlain _ fun w hw hne ↦
        classAttribute_not_opens hname hb.isLabelChar_of_mem hquote w hw hne _, hfound,
      List.append_assoc]
    rfl
  have hfilter := congrArg (List.filter (· = 'v')) htidy
  rw [hclasses, tidy_link, hcleaned, show cleaned draggable = draggable from rfl, htext,
    filter_collapseSpaces (by decide), filter_collapseSpaces (by decide)] at hfilter
  have hlength := congrArg List.length hfilter
  simp at hlength

theorem not_holdsAttribute_end (h : ¬ HoldsAttribute t) : ¬ HoldsAttribute (t ++ "\x7d>") := by
  rintro ⟨u, c, mark, v, heq, hc, hmark⟩
  rcases List.append_eq_append_iff.1 heq with ⟨more, -, hmore⟩ | ⟨more, rfl, hmore⟩
  · have hlength := congrArg List.length hmore
    simp at hlength
    omega
  · match more, hmore with
    | [], hmore =>
      obtain ⟨rfl, -⟩ := List.cons.inj hmore
      cases hc
    | [_], hmore => exact absurd (List.cons.inj (List.cons.inj hmore).2).1 (by decide)
    | [_, _], hmore =>
      obtain ⟨rfl, -⟩ := List.cons.inj (List.cons.inj (List.cons.inj hmore).2).2
      exact absurd hmark (by decide)
    | _ :: _ :: _ :: more, hmore =>
      obtain ⟨rfl, hequals⟩ := List.cons.inj hmore
      obtain ⟨rfl, hopened⟩ := List.cons.inj hequals
      obtain ⟨rfl, -⟩ := List.cons.inj hopened
      exact h ⟨u, c, mark, more, rfl, hc, hmark⟩

theorem strip_handler {value : Text} (hne : value ≠ [])
    (hvalue : ∀ c ∈ value, c ≠ '\x7d' ∧ c ≠ '\n') (hnone : ¬ HoldsAttribute (t ++ ['>'])) :
    stripAffordances ('<' :: 'a' ::
        ([' '] ++ ("onMouseDown" ++ '=' :: '\x7b' :: (value ++ '\x7d' :: (t ++ ['>']))))) =
      collapseSpaces ('<' :: 'a' :: (t ++ ['>'])) := by
  have hblank : ∀ t, Text.allBlank ('<' :: t) = false := fun _ ↦ rfl
  rw [stripAffordances, if_neg (Bool.eq_false_iff.1 (hblank _)), eraseAttributes_eq, erase, erase,
    erase, finds_handler.replace_link_append (by decide),
    finds_handler.replace_found (Text.forall_mem_of_all (by decide)) ⟨hne, hvalue⟩ fun _ _ ↦ rfl,
    List.nil_append,
    finds_handler.replace_of_not_holdsAttribute (.inr rfl) hnone,
    finds_roleButton.replace_link_append (by decide),
    finds_roleButton.replace_of_not_holdsAttribute (.inl rfl) hnone,
    finds_tabStop.replace_link_append (by decide),
    finds_tabStop.replace_of_not_holdsAttribute (.inr rfl) hnone, cleanClassAttributes_eq,
    finds_classAttribute.replace_link_append (by decide),
    finds_classAttribute.replace_of_not_holdsAttribute (.inl rfl) hnone, tidy_link]

theorem Exact.handler_closed {expression : Text} (h : Exact (.braced "onMouseDown" expression))
    (hb : (Attribute.braced "onMouseDown" expression).Written) :
    expression ≠ [] ∧ '\x7d' ∉ expression := by
  have hstripped := h (.link [.braced "onMouseDown" expression] (by simpa using hb))
    List.mem_cons_self fun d hd hne ↦ absurd (List.mem_singleton.1 hd) hne
  have hstrip : stripAffordances
      ('<' :: 'a' :: ([' '] ++ ("onMouseDown" ++ '=' :: '\x7b' :: (expression ++ "\x7d>")))) =
        collapseSpaces "<a>" := by
    refine Eq.trans (congrArg stripAffordances ?_) hstripped
    simp [TagLine.text, TagLine.textWith, TagLine.link, attributesText, Attribute.text]
  constructor
  · rintro rfl
    revert hstrip
    decide
  · intro hmem
    obtain ⟨value, rest, rfl, hvalue⟩ := List.eq_append_cons_of_mem hmem
    have hne : value ≠ [] := by
      rintro rfl
      cases hb.ends.1
    have hvalue' : ∀ c ∈ value, c ≠ '\x7d' ∧ c ≠ '\n' := fun c hc ↦
      ⟨fun heq ↦ hvalue (heq ▸ hc), fun heq ↦ hb.line (heq ▸ List.mem_append_left _ hc)⟩
    have hnone : ¬ HoldsAttribute (rest ++ "\x7d>") := by
      refine not_holdsAttribute_end ?_
      rintro ⟨u, c, mark, v, rfl, hc⟩
      exact hb.ends.2 ⟨value ++ '\x7d' :: u, c, mark, v, by simp, hc⟩
    have hrest : rest ++ "\x7d>" = (rest ++ ['\x7d']) ++ ['>'] := by simp
    have hexpression : (value ++ '\x7d' :: rest) ++ "\x7d>" =
        value ++ '\x7d' :: ((rest ++ ['\x7d']) ++ ['>']) := by simp
    have hclosed : '<' :: 'a' :: ((rest ++ ['\x7d']) ++ ['>']) =
        ('<' :: 'a' :: rest) ++ '\x7d' :: ['>'] := by simp
    rw [hexpression, strip_handler hne hvalue' (hrest ▸ hnone), hclosed,
      collapseSpaces_append_cons (by decide)] at hstrip
    have hbrace : '\x7d' ∈ collapseSpaces "<a>" := by
      rw [← hstrip]
      simp
    exact absurd hbrace (by decide)

theorem Exact.clear (h : Exact b) (hb : b.Written) : Clear b := by
  cases b with
  | bare => trivial
  | quoted name value =>
    exact ⟨h.role_name hb, h.class_name hb, h.class_at_end hb, h.tabStop_in_value hb,
      fun _ _ hvalue ↦ h.handler_in_value hb hvalue⟩
  | braced name expression =>
    refine ⟨?_, h.handler_name hb, h.tabStop_name hb⟩
    rintro rfl
    exact h.handler_closed hb

/-- A line of clear attributes loses its canvas attributes and canvas classes and nothing else, and its
braces stay balanced. An attribute that is not clear spoils a line whose other attributes are. -/
theorem affordances_stripped_iff (line : TagLine) :
    ((∀ b ∈ line.attributes, Clear b) →
      stripAffordances line.text = line.stripped ∧
        (Text.Balanced (stripAffordances line.text) ↔ Text.Balanced line.text)) ∧
    ∀ b ∈ line.attributes, (Clear b ↔ Exact b) := by
  constructor
  · intro hclear
    have hstripped := stripAffordances_text line hclear
    refine ⟨hstripped, ?_⟩
    rw [hstripped]
    exact line.balanced_stripped_iff
  · intro b hb
    refine ⟨fun hclear other _ hothers ↦ ?_, fun h ↦ h.clear (line.written b hb)⟩
    refine stripAffordances_text other fun d hd ↦ ?_
    by_cases hne : d = b
    · exact hne ▸ hclear
    · exact hothers d hd hne

def TagLine.item : TagLine where
  indentation := [' ', ' ']
  tag := "li"
  attributes := [.braced "onMouseDown" "go", .quoted "className" "cursor-move p-2", .quoted "id" "x"]
  closing := [' ', '/', '>']
  isBlank_of_mem := Text.forall_mem_of_all (by decide)
  isBlank_tag := Text.forall_mem_of_all (by decide)
  written := by
    refine List.forall_mem_cons.2 ⟨?_, List.forall_mem_cons.2 ⟨?_, List.forall_mem_singleton.2 ?_⟩⟩
    · exact written_braced (by decide) (by decide) (by decide) (by decide) (by decide)
    · exact written_quoted (by decide) (by decide) (by decide) (by decide)
    · exact written_quoted (by decide) (by decide) (by decide) (by decide)
  closing_eq := ⟨[' '], by simp, .inr rfl⟩

theorem affordances_stripped_iff_of_item :
    stripAffordances "  <li onMouseDown=\x7bgo\x7d className=\"cursor-move p-2\" id=\"x\" />" =
        "  <li className=\"p-2\" id=\"x\" />" ∧
      ¬ Exact (.quoted "data-role" "button") := by
  have hclear : ∀ b ∈ TagLine.item.attributes, Clear b := by
    refine List.forall_mem_cons.2 ⟨?_, List.forall_mem_cons.2 ⟨?_, List.forall_mem_singleton.2 ?_⟩⟩
    · exact ⟨fun _ ↦ by decide, fun h ↦ absurd rfl h.ne, fun h ↦ absurd h.suffix (by decide)⟩
    · exact clear_quoted (fun h ↦ absurd h.suffix (by decide)) (fun h ↦ absurd rfl h.ne) (by decide)
    · exact clear_quoted (fun h ↦ absurd h.suffix (by decide)) (fun h ↦ absurd h.suffix (by decide))
        (by decide)
  have hstripped : TagLine.item.stripped = "  <li className=\"p-2\" id=\"x\" />" := by decide
  refine ⟨((affordances_stripped_iff TagLine.item).1 hclear).1.trans hstripped, fun h ↦ ?_⟩
  have hwritten : (Attribute.quoted "data-role" "button").Written :=
    written_quoted (by decide) (by decide) (by decide) (by decide)
  have hcut := (((affordances_stripped_iff
    (.link [.quoted "data-role" "button"] (by simpa using hwritten))).2 _ List.mem_cons_self).2 h).1
  exact hcut ⟨"data-", by decide, rfl⟩ rfl

/-- A handler is cut at the first brace that is closed in it. -/
theorem handler_cut_short :
    stripAffordances "<div onMouseDown=\x7b() => \x7b go(); \x7d\x7d id=\"x\">" = "<div\x7d id=\"x\">" ∧
      Text.Balanced "<div onMouseDown=\x7b() => \x7b go(); \x7d\x7d id=\"x\">" ∧
      ¬ Text.Balanced "<div\x7d id=\"x\">" := by
  decide

end CanvasLift.Canvas
