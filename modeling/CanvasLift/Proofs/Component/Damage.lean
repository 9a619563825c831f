import CanvasLift.Proofs.Component.Replaced

namespace CanvasLift

/-- Where a text that starts behind the name of a tag has come to. -/
inductive Spot
  | tag
  | quotes (mark : Char)
  | braces (opened : Nat)
  | behind
deriving DecidableEq

namespace Spot

open Component.References

def step : Spot → Char → Spot
  | tag, c =>
    if isQuote c then quotes c
    else if c = '\x7b' then braces 0
    else if c = '<' ∨ c = '>' then behind
    else tag
  | quotes mark, c => if c = mark then tag else quotes mark
  | braces opened, c =>
    if c = '\x7b' then braces (opened + 1)
    else if c = '\x7d' then
      match opened with
      | 0 => tag
      | opened + 1 => braces opened
    else braces opened
  | behind, _ => behind

def after (t : Text) : Spot := t.foldl step tag

end Spot

namespace Component.References

open Pattern

variable {id content name other inner t u v w r rest front part : Text} {names : List Text}

/-- A self-closing element of the name. -/
def IsUse (name part : Text) : Prop :=
  ∃ inner, part = opening name inner ++ ['/', '>'] ∧ StartsBlank inner ∧ Spot.after inner = .tag

/-- The text that the pass over the uses of the name is made on. -/
def Round (id content name t : Text) : Prop :=
  ∃ before later, boundNames id content = before ++ name :: later ∧
    t = replaceAllUses before ((defaultImport id).erase content)

theorem not_leavesOpen_nil : ¬ LeavesOpen name [] := by
  rintro ⟨before, inner, heq, -⟩
  simp [opening] at heq

theorem LeavesOpen.of_cons {x : Char} (h : LeavesOpen name (x :: front)) :
    LeavesOpen name front ∨
      ∃ inner, x :: front = opening name inner ∧ '/' ∉ inner ∧ inner ≠ [] ∧ StartsBlank inner := by
  obtain ⟨before, inner, heq, hinner, hne, hblank⟩ := h
  cases before with
  | nil => exact .inr ⟨inner, heq, hinner, hne, hblank⟩
  | cons y before =>
    obtain ⟨-, rfl⟩ := List.cons.inj heq
    exact .inl ⟨before, inner, rfl, hinner, hne, hblank⟩

theorem LeavesOpen.of_append_end (hname : IsName name)
    (h : LeavesOpen name (u ++ '/' :: '>' :: front)) :
    LeavesOpen name front := by
  obtain ⟨before, inner, heq, hinner, hne, hblank⟩ := h
  have hslash : '/' ∉ opening name inner := slash_not_mem_opening hname hinner
  have hsplit : (u ++ ['/'] ++ ['>']) ++ front = before ++ opening name inner := by simp [← heq]
  rcases List.append_eq_append_iff.1 hsplit with ⟨more, rfl, hfront⟩ | ⟨more, hmore, hopening⟩
  · exact ⟨more, inner, hfront, hinner, hne, hblank⟩
  · rcases List.suffix_concat_iff.1 (⟨before, hmore.symm⟩ : more <:+ u ++ ['/'] ++ ['>']) with
      rfl | ⟨more, rfl, hsuffix⟩
    · exact ⟨[], inner, hopening.symm, hinner, hne, hblank⟩
    · rcases List.suffix_concat_iff.1 hsuffix with rfl | ⟨more, rfl, -⟩
      · cases hopening
      · simp [hopening] at hslash

/-- What a pass cuts out: from an opening that no earlier one reaches up to, as far as the first slash
and the end of the tag after it. -/
theorem mem_parts_iff (hname : IsName name) : part ∈ (selfClosing name).parts t ↔
    ∃ front inner rest, t = front ++ (part ++ rest) ∧ part = opening name inner ++ ['/', '>'] ∧
      '/' ∉ inner ∧ StartsBlank inner ∧ ¬ LeavesOpen name front := by
  have htaken : ∀ {inner r}, '/' ∉ inner → StartsBlank inner →
      (selfClosing name).parts (opening name inner ++ ['/', '>'] ++ r) =
        (opening name inner ++ ['/', '>']) :: (selfClosing name).parts r := by
    intro inner r hinner hblank
    have htakes : (selfClosing name).Takes none (opening name inner ++ ['/', '>']) r :=
      takes_selfClosing_iff.2 ⟨inner, rfl, hinner, hblank⟩
    exact parts_append_of_takes (isPlain_selfClosing name) (unique_selfClosing hname)
      (ne_nil_of_takes htakes) htakes
  constructor
  · intro hpart
    induction hlength : t.length using Nat.strongRecOn generalizing t with
    | ind n ih =>
      cases t with
      | nil => cases hpart
      | cons x t =>
        cases hopens : (selfClosing name).opens (x :: t) with
        | true =>
          obtain ⟨inner, r, heq, hinner, hblank⟩ := opens_iff_opening.1 hopens
          have hsplit : x :: t = (opening name inner ++ ['/', '>']) ++ r := by simp [heq]
          rw [hsplit, htaken hinner hblank, List.mem_cons] at hpart
          rcases hpart with rfl | hpart
          · exact ⟨[], inner, r, hsplit, rfl, hinner, hblank, not_leavesOpen_nil⟩
          · have hlt : r.length < n := by
              have := congrArg List.length hsplit
              simp only [List.length_append, List.length_cons] at this hlength
              omega
            obtain ⟨front, inner', rest, rfl, hshape, hinner', hblank', hclosed⟩ := ih _ hlt hpart rfl
            refine ⟨opening name inner ++ '/' :: '>' :: front, inner', rest, ?_, hshape, hinner',
              hblank', fun hopen ↦ hclosed (hopen.of_append_end hname)⟩
            simp [heq]
        | false =>
          rw [parts_cons (isPlain_selfClosing name) hopens] at hpart
          have hlt : t.length < n := by
            simp only [List.length_cons] at hlength
            omega
          obtain ⟨front, inner, rest, rfl, hshape, hinner, hblank, hclosed⟩ := ih _ hlt hpart rfl
          refine ⟨x :: front, inner, rest, rfl, hshape, hinner, hblank, fun hopen ↦ ?_⟩
          obtain hfront | ⟨more, heq, hmore, hne, hstarts⟩ := hopen.of_cons
          · exact hclosed hfront
          · -- The earlier opening reaches as far as the slash of this one.
            have hreach : (selfClosing name).opens (x :: (front ++ (part ++ rest))) = true := by
              refine opens_iff_opening.2 ⟨more ++ opening name inner, rest, ?_, ?_, ?_⟩
              · rw [← List.cons_append, heq, hshape]
                simp [opening]
              · simp [hmore, slash_not_mem_opening hname hinner]
              · obtain ⟨b, more, rfl⟩ := List.exists_cons_of_ne_nil hne
                exact hstarts
            rw [hopens] at hreach
            cases hreach
  · rintro ⟨front, inner, rest, rfl, rfl, hinner, hblank, hclosed⟩
    have hparts : (selfClosing name).parts (front ++ (opening name inner ++ ['/', '>'] ++ rest)) =
        (selfClosing name).parts front ++
          (selfClosing name).parts (opening name inner ++ ['/', '>'] ++ rest) :=
      parts_append_of_pieces (pieces_append_of_not_leavesOpen hname hclosed (.inl rfl))
    rw [hparts, htaken hinner hblank]
    exact List.mem_append_right _ List.mem_cons_self

theorem isUse_parts_iff (hname : IsName name) :
    (∀ part ∈ (selfClosing name).parts t, IsUse name part) ↔
      ∀ front inner rest, t = front ++ (opening name inner ++ '/' :: '>' :: rest) → '/' ∉ inner →
        StartsBlank inner → ¬ LeavesOpen name front → Spot.after inner = .tag := by
  constructor
  · intro huses front inner rest heq hinner hblank hclosed
    obtain ⟨inner', heq', -, htag⟩ := huses (opening name inner ++ ['/', '>'])
      ((mem_parts_iff hname).2 ⟨front, inner, rest, by simp [heq], rfl, hinner, hblank, hclosed⟩)
    rw [opening, opening, List.append_left_inj, List.cons_inj_right, List.append_right_inj] at heq'
    rwa [heq']
  · intro htags part hpart
    obtain ⟨front, inner, rest, rfl, rfl, hinner, hblank, hclosed⟩ := (mem_parts_iff hname).1 hpart
    exact ⟨inner, rfl, hblank, htags front inner rest (by simp) hinner hblank hclosed⟩

theorem replaceAllUses_opening_iff (hnames : ∀ name ∈ names, IsName name) (hname : name ∈ names)
    (hinner : '/' ∉ inner) (hblank : StartsBlank inner) :
    replaceAllUses names (front ++ (opening name inner ++ '/' :: rest)) =
        replaceAllUses names front ++ (opening name inner ++ '/' :: replaceAllUses names rest) ↔
      rest.head? ≠ some '>' := by
  constructor
  · intro hkept hhead
    obtain ⟨rest, rfl⟩ := List.head?_eq_some_iff.1 hhead
    rw [replaceAllUses_cons names (by decide)] at hkept
    have htakes : (selfClosing name).Takes (replaceAllUses names front).getLast?
        (opening name inner ++ ['/', '>']) (replaceAllUses names rest) :=
      takes_selfClosing_iff.2 ⟨inner, rfl, hinner, hblank⟩
    have hoccurs := (occursIn_iff _ _).2 ⟨_, _, _, by simpa using hkept, htakes⟩
    rw [not_occursIn_replaceAllUses hnames hname] at hoccurs
    cases hoccurs
  · intro hhead
    have hopening : '/' ∉ opening name inner := slash_not_mem_opening (hnames name hname) hinner
    rw [← List.append_assoc, replaceAllUses_append_slash hnames hhead,
      replaceAllUses_append_of_not_mem hnames hopening (by simp [opening]), List.append_assoc]

/-- A pass puts empty expressions in the place of what it cuts out and keeps the rest as it is. What
it cuts out are self-closing elements of the name if each opening whose first slash ends a tag is in
its own tag there, and only then; an opening tag is kept with what follows it as far as the first slash
if that slash ends no tag, and only then. -/
theorem uses_cut_iff (id content : Text) :
    (∀ name t, Round id content name t →
      (∃ (kept : List (Text × Text)) (last : Text),
        kept.map (·.2) = (selfClosing name).parts t ∧
        t = kept.flatMap (fun p ↦ p.1 ++ p.2) ++ last ∧
        replaceUses name t = kept.flatMap (fun p ↦ p.1 ++ emptyExpression) ++ last) ∧
      ((∀ part ∈ (selfClosing name).parts t, IsUse name part) ↔
        ∀ front inner rest, t = front ++ (opening name inner ++ '/' :: '>' :: rest) → '/' ∉ inner →
          StartsBlank inner → ¬ LeavesOpen name front → Spot.after inner = .tag)) ∧
    ∀ name ∈ boundNames id content, ∀ front inner rest,
      (defaultImport id).erase content = front ++ (opening name inner ++ '/' :: rest) →
      '/' ∉ inner → StartsBlank inner →
      (strip id content = replaceAllUses (boundNames id content) front ++
          (opening name inner ++ '/' :: replaceAllUses (boundNames id content) rest) ↔
        rest.head? ≠ some '>') := by
  have hnames : ∀ name ∈ boundNames id content, IsName name := fun _ ↦ isName_of_mem_boundNames
  constructor
  · rintro name t ⟨before, later, hbound, -⟩
    exact ⟨exists_kept _ _ _, isUse_parts_iff (hnames name (by simp [hbound]))⟩
  · intro name hname front inner rest heq hinner hblank
    rw [strip_eq, heq]
    exact replaceAllUses_opening_iff hnames hname hinner hblank

theorem uses_cut_iff_of_paragraph :
    strip "card"
        "import Card from \"./components/card\";\n<Card title=\"x\">\n  <p>y</p>\n</Card>\n" =
      "<Card title=\"x\">\n  <p>y</p>\n</Card>\n" := by
  have hblank : StartsBlank " title=\"x\">\n  <p>y<" := by
    rintro c ⟨⟩
    decide
  have hbound : ("Card" : Text) ∈ boundNames "card"
      "import Card from \"./components/card\";\n<Card title=\"x\">\n  <p>y</p>\n</Card>\n" := by
    decide
  exact ((uses_cut_iff "card" _).2 "Card" hbound [] " title=\"x\">\n  <p>y<" "p>\n</Card>\n"
    (by decide) (by decide) hblank).2 (by decide)

/-- An element after an opening tag is taken for the end of the tag. -/
theorem opening_tag_cut :
    strip "card"
        "import Card from \"./components/card\";\n<Card title=\"x\">\n  <img />\n</Card>\n" =
      "\x7bnull\x7d\n</Card>\n" := by
  decide

end Component.References

end CanvasLift
