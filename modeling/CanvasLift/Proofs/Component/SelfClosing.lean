import CanvasLift.Component.References
import CanvasLift.Proofs.Canvas.Guard
import CanvasLift.Proofs.Pattern.Replacement

/-!
Uses of a name replaced. From an opening of the name on, a use runs to the next slash, and it is
replaced if that slash ends a tag. The main statements are that a slash which ends no tag parts a text
into two that are treated on their own, and that no use is left which the pattern recognizes.
-/

namespace CanvasLift.Component.References

open Pattern

def replaceUses (name t : Text) : Text := (selfClosing name).replace (fun _ ↦ emptyExpression) t

def replaceAllUses (names : List Text) (t : Text) : Text :=
  names.foldl (fun t name ↦ replaceUses name t) t

def opening (name inner : Text) : Text := '<' :: (name ++ inner)

/-- Nothing, or a blank and whatever follows: what a name has to end at. -/
def StartsBlank (inner : Text) : Prop := ∀ c ∈ inner.head?, Text.isBlank c = true

def IsName (name : Text) : Prop := ∀ c ∈ name, Text.isWord c = true

variable {name other inner t u v w r taken rest : Text} {names : List Text} {last : Option Char}

theorem IsName.not_mem (h : IsName name) {c : Char} (hc : Text.isWord c = false) : c ∉ name := by
  intro hmem
  rw [h c hmem] at hc
  cases hc

theorem slash_not_mem_opening (hname : IsName name) (hinner : '/' ∉ inner) :
    '/' ∉ opening name inner := by
  have hslash := hname.not_mem (c := '/') (by decide)
  simp [opening, hslash, hinner]

theorem StartsBlank.head_ne {x : Char} (h : StartsBlank (x :: inner)) {y : Char}
    (hy : Text.isBlank y = false) : x ≠ y := by
  rintro rfl
  rw [h x rfl] at hy
  cases hy

theorem takes_selfClosing_iff : (selfClosing name).Takes last taken rest ↔
    ∃ inner, taken = opening name inner ++ ['/', '>'] ∧ '/' ∉ inner ∧ StartsBlank inner := by
  constructor
  · rintro (⟨_, _, rfl, hbracket, _, _, rfl, hname, _, _, rfl, hblanks, u, _, rfl, hu, _, _, rfl, hend,
        rfl⟩ | ⟨_, _, rfl, hbracket, _, _, rfl, hname, blanks, _, rfl, hblanks, _, _, rfl, hend, rfl⟩)
    · obtain ⟨x, blanks, rfl, ⟨b, rfl, hb⟩, hblanks⟩ := hblanks
      rw [takes_literal.1 hbracket, takes_literal.1 hname, takes_literal.1 hend]
      refine ⟨b :: (blanks ++ u), by simp [opening], ?_, by simpa [StartsBlank] using hb⟩
      intro hmem
      rcases List.mem_cons.1 hmem with rfl | hmem
      · exact absurd hb (by decide)
      · rcases List.mem_append.1 hmem with hmem | hmem
        · exact absurd (hblanks '/' hmem) (by decide)
        · exact absurd (hu '/' hmem) (by decide)
    · rw [takes_literal.1 hbracket, takes_literal.1 hname, takes_literal.1 hend]
      refine ⟨blanks, by simp [opening], fun hmem ↦ absurd (hblanks '/' hmem) (by decide), ?_⟩
      intro c hc
      exact hblanks c (List.mem_of_head? hc)
  · rintro ⟨inner, rfl, hslash, hblank⟩
    cases inner with
    | nil =>
      refine .inr (takes_chain_append (u := ['<']) (takes_literal.2 rfl) ?_)
      refine takes_chain_append (takes_literal.2 (List.append_nil name)) ?_
      exact takes_chain_skip takes_many_nil (takes_chain_singleton (takes_literal.2 rfl))
    | cons b inner =>
      have hb : Text.isBlank b = true := hblank b rfl
      have hinner : ∀ c ∈ inner, decide (c ≠ '/') = true := by
        intro c hc
        rw [decide_eq_true_iff]
        rintro rfl
        exact hslash (List.mem_cons_of_mem _ hc)
      have hrest : (chain [run Text.isBlank, many (· ≠ '/'), literal "/>"]).Takes
          (lastOver (lastOver last ['<']) name) ([b] ++ (inner ++ ['/', '>'])) rest :=
        takes_chain_append (takes_run.2 ⟨List.cons_ne_nil _ _, by simpa using hb⟩)
          (takes_chain_append hinner (takes_chain_singleton (takes_literal.2 rfl)))
      have htaken : opening name (b :: inner) ++ ['/', '>'] =
          ['<'] ++ (name ++ ([b] ++ (inner ++ ['/', '>']))) := by simp [opening]
      rw [htaken]
      exact .inl (takes_chain_append (takes_literal.2 rfl)
        (takes_chain_append (takes_literal.2 rfl) hrest))

theorem isPlain_selfClosing (name : Text) : (selfClosing name).isPlain = true := by
  simp [selfClosing, chain, isPlain, isPlain_literal, run]

theorem capturesNothing_selfClosing (name : Text) : (selfClosing name).capturesNothing = true := by
  simp [selfClosing, chain, capturesNothing, capturesNothing_literal, run]

theorem ne_nil_of_takes (h : (selfClosing name).Takes last taken rest) : taken ≠ [] := by
  obtain ⟨inner, rfl, -⟩ := takes_selfClosing_iff.1 h
  exact List.cons_ne_nil _ _

theorem opens_iff_opening : (selfClosing name).opens t = true ↔
    ∃ inner r, t = opening name inner ++ '/' :: '>' :: r ∧ '/' ∉ inner ∧ StartsBlank inner := by
  rw [opens_iff]
  constructor
  · rintro ⟨taken, rest, rfl, htaken⟩
    obtain ⟨inner, rfl, hinner⟩ := takes_selfClosing_iff.1 htaken
    exact ⟨inner, rest, by simp, hinner⟩
  · rintro ⟨inner, r, rfl, hinner⟩
    exact ⟨_, r, by simp, takes_selfClosing_iff.2 ⟨inner, rfl, hinner⟩⟩

theorem eq_of_append_slash (hu : '/' ∉ u) (hv : '/' ∉ v) (h : u ++ '/' :: t = v ++ '/' :: r) :
    u = v ∧ t = r := by
  have hall : ∀ w : Text, '/' ∉ w → ∀ c ∈ w, decide (c ≠ '/') = true := by
    intro w hw c hc
    rw [decide_eq_true_iff]
    rintro rfl
    exact hw hc
  obtain ⟨huv, htr⟩ := Text.append_cons_inj (hall u hu) (hall v hv) (by simp) (by simp) h
  exact ⟨huv, (List.cons.inj htr).2⟩

section

variable (hname : IsName name)
include hname

theorem unique_selfClosing : (selfClosing name).Unique := by
  intro taken rest u v heq htaken hu
  obtain ⟨inner, rfl, hinner, -⟩ := takes_selfClosing_iff.1 htaken
  obtain ⟨inner', rfl, hinner', -⟩ := takes_selfClosing_iff.1 hu
  simp only [List.append_assoc, List.cons_append] at heq
  rw [(eq_of_append_slash (slash_not_mem_opening hname hinner) (slash_not_mem_opening hname hinner')
    heq).1]

theorem pieces_append_selfClosing
    (h : ∀ w, w <:+ u → w ≠ [] → ∀ taken rest, w ++ v = taken ++ rest →
      (selfClosing name).Takes none taken rest → taken <+: w) :
    (selfClosing name).pieces (u ++ v) =
      (selfClosing name).pieces u ++ (selfClosing name).pieces v :=
  pieces_append (isPlain_selfClosing name) (capturesNothing_selfClosing name)
    (unique_selfClosing hname) (fun _ hnil ↦ ne_nil_of_takes hnil rfl) h

theorem replaceUses_append
    (h : ∀ w, w <:+ u → w ≠ [] → ∀ taken rest, w ++ v = taken ++ rest →
      (selfClosing name).Takes none taken rest → taken <+: w) :
    replaceUses name (u ++ v) = replaceUses name u ++ replaceUses name v := by
  rw [replaceUses, replace, pieces_append_selfClosing hname h, List.flatMap_append]
  rfl

theorem reach_of_takes (h : (selfClosing name).Takes none taken rest) (heq : w ++ v = taken ++ rest) :
    taken <+: w ∨ '/' ∉ w ∨ w.getLast? = some '/' ∧ v.head? = some '>' := by
  obtain ⟨inner, rfl, hinner, -⟩ := takes_selfClosing_iff.1 h
  by_cases hslash : '/' ∈ w
  · obtain ⟨front, more, rfl, hfront⟩ := List.eq_append_cons_of_mem hslash
    simp only [List.append_assoc, List.cons_append] at heq
    obtain ⟨rfl, hmore⟩ := eq_of_append_slash hfront (slash_not_mem_opening hname hinner) heq
    cases more with
    | nil => exact .inr (.inr ⟨by simp, by rw [← List.nil_append v, hmore]; rfl⟩)
    | cons x more =>
      obtain ⟨rfl, -⟩ := List.cons.inj hmore
      exact .inl ⟨more, by simp⟩
  · exact .inr (.inl hslash)

end

theorem not_opens_of_not_mem (h : '/' ∉ t) : (selfClosing name).opens t = false := by
  rw [← Bool.not_eq_true, opens_iff_opening]
  rintro ⟨inner, r, rfl, -⟩
  simp at h

theorem not_opens_of_head_ne {x : Char} (h : x ≠ '<') :
    (selfClosing name).opens (x :: t) = false := by
  rw [← Bool.not_eq_true, opens_iff_opening]
  rintro ⟨inner, r, heq, -⟩
  exact h (List.cons.inj heq).1

theorem replaceUses_cons {x : Char} (h : (selfClosing name).opens (x :: t) = false) :
    replaceUses name (x :: t) = x :: replaceUses name t := replace_cons (isPlain_selfClosing name) _ h

theorem replaceUses_of_not_mem (h : '/' ∉ t) : replaceUses name t = t := by
  refine replace_eq_of_not_opens (isPlain_selfClosing name) _ fun w hw _ ↦ ?_
  exact not_opens_of_not_mem fun hmem ↦ h (hw.subset hmem)

theorem replaceUses_opening (hname : IsName name) (hinner : '/' ∉ inner)
    (hblank : StartsBlank inner) (r : Text) :
    replaceUses name (opening name inner ++ '/' :: '>' :: r) =
      emptyExpression ++ replaceUses name r := by
  have htakes : (selfClosing name).Takes none (opening name inner ++ ['/', '>']) r :=
    takes_selfClosing_iff.2 ⟨inner, rfl, hinner, hblank⟩
  have hreplace := replace_append_of_takes (f := fun _ ↦ emptyExpression)
    (isPlain_selfClosing name) (unique_selfClosing hname) (ne_nil_of_takes htakes) htakes
    fun _ _ ↦ rfl
  rwa [List.append_assoc] at hreplace

theorem replaceUses_cases (hname : IsName name) (x : Char) (t : Text) :
    (∃ inner r, x :: t = opening name inner ++ '/' :: '>' :: r ∧ '/' ∉ inner ∧
      replaceUses name (x :: t) = emptyExpression ++ replaceUses name r) ∨
    ((selfClosing name).opens (x :: t) = false ∧
      replaceUses name (x :: t) = x :: replaceUses name t) := by
  cases hopens : (selfClosing name).opens (x :: t) with
  | true =>
    obtain ⟨inner, r, heq, hinner, hblank⟩ := opens_iff_opening.1 hopens
    exact .inl ⟨inner, r, heq, hinner, by rw [heq, replaceUses_opening hname hinner hblank]⟩
  | false => exact .inr ⟨rfl, replaceUses_cons hopens⟩

theorem head?_replaceUses_ne (hname : IsName name) (h : r.head? ≠ some '>') :
    (replaceUses name r).head? ≠ some '>' := by
  cases r with
  | nil => exact h
  | cons x r =>
    rcases replaceUses_cases hname x r with ⟨_, _, -, -, hreplace⟩ | ⟨-, hreplace⟩
    · rw [hreplace]
      simp [emptyExpression]
    · rw [hreplace]
      exact h

/-- A slash that ends no tag parts a text. -/
theorem replaceUses_append_slash (hname : IsName name) (h : r.head? ≠ some '>') :
    replaceUses name (u ++ '/' :: r) = replaceUses name u ++ '/' :: replaceUses name r := by
  have hslash : (selfClosing name).opens ('/' :: r) = false := not_opens_of_head_ne (by decide)
  rw [← replaceUses_cons hslash]
  refine replaceUses_append hname fun w _ _ taken rest heq htakes ↦ ?_
  rcases reach_of_takes hname htakes heq with hprefix | hw | ⟨-, hhead⟩
  · exact hprefix
  · obtain ⟨inner, rfl, hinner, -⟩ := takes_selfClosing_iff.1 htakes
    simp only [List.append_assoc, List.cons_append] at heq
    obtain ⟨-, rfl⟩ := eq_of_append_slash hw (slash_not_mem_opening hname hinner) heq
    exact absurd rfl h
  · simp at hhead

theorem replaceUses_append_of_not_mem (hname : IsName name) (hw : '/' ∉ w)
    (hhead : w.head? ≠ some '>') : replaceUses name (u ++ w) = replaceUses name u ++ w := by
  have hself : replaceUses name w = w := replaceUses_of_not_mem hw
  suffices hparts : replaceUses name (u ++ w) = replaceUses name u ++ replaceUses name w by
    rw [hparts, hself]
  refine replaceUses_append hname fun v _ _ taken rest heq htakes ↦ ?_
  rcases reach_of_takes hname htakes heq with hprefix | hv | ⟨-, hhead'⟩
  · exact hprefix
  · obtain ⟨inner, rfl, -⟩ := takes_selfClosing_iff.1 htakes
    have hmem : '/' ∈ v ++ w := by simp [heq]
    rcases List.mem_append.1 hmem with hmem | hmem
    · exact absurd hmem hv
    · exact absurd hmem hw
  · exact absurd hhead' hhead

/-- What comes up to a slash after a pass came up to one before it, and is the same at least as far as
the first replacement. -/
theorem exists_before_of_replaceUses (hname : IsName name) (hw : '/' ∉ w)
    (h : replaceUses name t = w ++ '/' :: '>' :: r) :
    ∃ w' r', t = w' ++ '/' :: '>' :: r' ∧ '/' ∉ w' ∧
      (w' = w ∨ ∃ front, front ++ ['\x7b'] <+: w ∧ front <+: w') := by
  induction t generalizing w with
  | nil =>
    have hnil : replaceUses name [] = [] := rfl
    simp [hnil] at h
  | cons x t ih =>
    rcases replaceUses_cases hname x t with ⟨inner, r', heq, hinner, hreplace⟩ | ⟨-, hreplace⟩
    · -- A use is replaced right here, so nothing is the same.
      rw [hreplace] at h
      refine ⟨_, r', heq, slash_not_mem_opening hname hinner, .inr ⟨[], ?_, List.nil_prefix⟩⟩
      cases w with
      | nil => exact absurd (List.cons.inj h).1 (by decide)
      | cons y w =>
        obtain ⟨rfl, -⟩ := List.cons.inj h
        exact ⟨w, rfl⟩
    · rw [hreplace] at h
      cases w with
      | nil =>
        obtain ⟨rfl, hrest⟩ := List.cons.inj h
        have hhead : t.head? = some '>' := by
          by_cases hhead : t.head? = some '>'
          · exact hhead
          · exact absurd (by rw [hrest]; rfl) (head?_replaceUses_ne hname hhead)
        obtain ⟨t, rfl⟩ := List.head?_eq_some_iff.1 hhead
        exact ⟨[], t, rfl, List.not_mem_nil, .inl rfl⟩
      | cons y w =>
        obtain ⟨rfl, hrest⟩ := List.cons.inj h
        obtain ⟨hx, hw⟩ := not_or.1 (mt List.mem_cons.2 hw)
        obtain ⟨w', r', rfl, hw', hsame⟩ := ih hw hrest
        refine ⟨x :: w', r', rfl, by simp [hx, hw'], ?_⟩
        rcases hsame with rfl | ⟨front, hfront, hfront'⟩
        · exact .inl rfl
        · exact .inr ⟨x :: front, List.cons_prefix_cons.2 ⟨rfl, hfront⟩,
            List.cons_prefix_cons.2 ⟨rfl, hfront'⟩⟩

theorem opens_of_opens_replaceUses (hname : IsName name) (hother : IsName other) {x : Char}
    (h : (selfClosing other).opens (x :: replaceUses name t) = true) :
    (selfClosing other).opens (x :: t) = true := by
  obtain ⟨inner, r, heq, hinner, hblank⟩ := opens_iff_opening.1 h
  obtain ⟨rfl, hrest⟩ := List.cons.inj heq
  have hslash : '/' ∉ other ++ inner := by simpa [opening] using slash_not_mem_opening hother hinner
  obtain ⟨w, r', rfl, hw, rfl | ⟨front, hfront, hw'⟩⟩ :=
    exists_before_of_replaceUses hname hslash hrest
  · exact opens_iff_opening.2 ⟨inner, r', rfl, hinner, hblank⟩
  · -- The first replacement comes after the blank behind the name.
    have hlong : other.length ≤ front.length := by
      rcases Nat.lt_or_ge front.length other.length with hshort | hlong
      · have hprefix : front ++ ['\x7b'] <+: other := by
          refine List.prefix_of_prefix_length_le hfront (List.prefix_append other inner) ?_
          simp only [List.length_append, List.length_singleton]
          omega
        have hmem := hprefix.subset (List.mem_append_right front List.mem_cons_self)
        exact absurd hmem (hother.not_mem (by decide))
      · exact hlong
    obtain ⟨blanks, rfl⟩ : other <+: front :=
      List.prefix_of_prefix_length_le (List.prefix_append other inner)
        ((List.prefix_append front _).trans hfront) hlong
    obtain ⟨tail, rfl⟩ := hw'
    rw [List.append_assoc, List.prefix_append_right_inj] at hfront
    have hinner' : '/' ∉ blanks ++ tail := by
      rw [List.append_assoc] at hw
      exact fun hmem ↦ hw (List.mem_append_right other hmem)
    refine opens_iff_opening.2 ⟨blanks ++ tail, r', by simp [opening], hinner', ?_⟩
    obtain ⟨more, rfl⟩ := hfront
    cases blanks with
    | nil => exact absurd rfl (hblank.head_ne (by decide))
    | cons b blanks => exact hblank

theorem occursIn_append_iff (h : '<' ∉ u) :
    (selfClosing name).occursIn (u ++ t) = true ↔ (selfClosing name).occursIn t = true := by
  induction u with
  | nil => exact Iff.rfl
  | cons x u ih =>
    obtain ⟨hx, hu⟩ := not_or.1 (mt List.mem_cons.2 h)
    rw [List.cons_append, occursIn_cons_iff (isPlain_selfClosing name), not_opens_of_head_ne (Ne.symm hx),
      ih hu]
    simp

theorem not_occursIn_nil : (selfClosing name).occursIn [] = false := by
  rw [← Bool.not_eq_true, occursIn_iff]
  rintro ⟨front, taken, rest, heq, htakes⟩
  exact ne_nil_of_takes htakes (List.append_eq_nil_iff.1 (List.append_eq_nil_iff.1 heq.symm).2).1

theorem occursIn_of_occursIn_replaceUses (hname : IsName name) (hother : IsName other)
    (h : (selfClosing other).occursIn (replaceUses name t) = true) :
    (selfClosing other).occursIn t = true := by
  induction hlength : t.length using Nat.strongRecOn generalizing t with
  | ind n ih =>
    cases t with
    | nil => exact h
    | cons x t =>
      rcases replaceUses_cases hname x t with ⟨inner, r, heq, -, hreplace⟩ | ⟨-, hreplace⟩
      · rw [hreplace, occursIn_append_iff (by decide)] at h
        have hlt : r.length < n := by
          have := congrArg List.length heq
          simp only [List.length_append, List.length_cons] at this hlength
          omega
        have hr := ih r.length hlt h rfl
        rw [heq, ← List.singleton_append, ← List.singleton_append (l := r)]
        simp only [← List.append_assoc]
        exact occursIn_append_left (isPlain_selfClosing other) hr _
      · rw [hreplace, occursIn_cons_iff (isPlain_selfClosing other)] at h
        rw [occursIn_cons_iff (isPlain_selfClosing other)]
        rcases h with h | h
        · exact .inl (opens_of_opens_replaceUses hname hother h)
        · refine .inr (ih t.length ?_ h rfl)
          simp only [List.length_cons] at hlength
          omega

theorem not_occursIn_replaceUses (hname : IsName name) (t : Text) :
    (selfClosing name).occursIn (replaceUses name t) = false := by
  induction hlength : t.length using Nat.strongRecOn generalizing t with
  | ind n ih =>
    cases t with
    | nil => exact not_occursIn_nil
    | cons x t =>
      rcases replaceUses_cases hname x t with ⟨inner, r, heq, -, hreplace⟩ | ⟨hopens, hreplace⟩
      · have hlt : r.length < n := by
          have := congrArg List.length heq
          simp only [List.length_append, List.length_cons] at this hlength
          omega
        rw [← Bool.not_eq_true, hreplace, occursIn_append_iff (by decide), ih r.length hlt r rfl]
        simp
      · rw [← Bool.not_eq_true, hreplace, occursIn_cons_iff (isPlain_selfClosing name)]
        rintro (h | h)
        · rw [opens_of_opens_replaceUses hname hname h] at hopens
          cases hopens
        · simp only [List.length_cons] at hlength
          rw [ih t.length (by omega) t rfl] at h
          cases h

end CanvasLift.Component.References
