import CanvasLift.Proofs.Component.Attribute
import CanvasLift.Proofs.Component.References
import CanvasLift.Proofs.Text.Distinct

namespace CanvasLift

namespace Component.References

open Pattern

variable {id content name other inner t u v w r rest front : Text} {names : List Text}

/-- The names that imports of the component bind, in order. -/
def boundNames (id content : Text) : List Text := Text.distinct ((defaultImport id).captures content)

theorem strip_eq (id content : Text) :
    strip id content = replaceAllUses (boundNames id content) ((defaultImport id).erase content) := rfl

def importFront : List Pattern := [lineStart, padding, literal "import", run Text.isBlank]

def importBack (id : Text) : List Pattern :=
  [run Text.isBlank, literal "from", run Text.isBlank, one isQuote, modulePath id, one isQuote,
    optional (literal ";"), padding, optional (chain [optional (literal "\r"), literal "\n"])]

theorem defaultImport_eq_chain (id : Text) :
    defaultImport id = chain (importFront ++ capture (run Text.isWord) :: importBack id) := rfl

theorem isName_of_mem_captures (h : name ∈ (defaultImport id).captures content) : IsName name := by
  obtain ⟨place, d, hd, rfl⟩ := exists_ends_of_mem_captures h
  rw [defaultImport_eq_chain] at hd
  have hback : (chain (importBack id)).capturesNothing = true := by
    simp [importBack, chain, capturesNothing, run, modulePath, Pattern.optional, oneOf, notQuote, padding,
      capturesNothing_literal]
  obtain ⟨_, _, -, -, htakes, -⟩ := takes_captured hback hd
  exact (takes_run.1 htakes).2

theorem isName_of_mem_boundNames (h : name ∈ boundNames id content) : IsName name :=
  isName_of_mem_captures (Text.mem_distinct_iff.1 h)

theorem replaceAllUses_append_slash (hnames : ∀ name ∈ names, IsName name)
    (h : r.head? ≠ some '>') :
    replaceAllUses names (u ++ '/' :: r) =
      replaceAllUses names u ++ '/' :: replaceAllUses names r := by
  induction names generalizing u r with
  | nil => rfl
  | cons name names ih =>
    obtain ⟨hname, hnames⟩ := List.forall_mem_cons.1 hnames
    simp only [replaceAllUses, List.foldl_cons, replaceUses_append_slash hname h]
    exact ih hnames (head?_replaceUses_ne hname h)

theorem replaceAllUses_append_of_not_mem (hnames : ∀ name ∈ names, IsName name) (hw : '/' ∉ w)
    (hhead : w.head? ≠ some '>') : replaceAllUses names (u ++ w) = replaceAllUses names u ++ w := by
  induction names generalizing u with
  | nil => rfl
  | cons name names ih =>
    obtain ⟨hname, hnames⟩ := List.forall_mem_cons.1 hnames
    simp only [replaceAllUses, List.foldl_cons, replaceUses_append_of_not_mem hname hw hhead]
    exact ih hnames

theorem not_occursIn_replaceAllUses (hnames : ∀ name ∈ names, IsName name) (h : name ∈ names) :
    (selfClosing name).occursIn (replaceAllUses names t) = false := by
  have hkept : ∀ (later : List Text) (t : Text), (∀ other ∈ later, IsName other) →
      (selfClosing name).occursIn t = false →
        (selfClosing name).occursIn (replaceAllUses later t) = false := by
    intro later
    induction later with
    | nil => exact fun _ _ ht ↦ ht
    | cons other later ih =>
      intro t hlater ht
      obtain ⟨hother, hlater⟩ := List.forall_mem_cons.1 hlater
      refine ih _ hlater ?_
      rw [← Bool.not_eq_true] at ht ⊢
      exact fun hoccurs ↦ ht (occursIn_of_occursIn_replaceUses hother (hnames name h) hoccurs)
  obtain ⟨before, later, rfl⟩ := List.append_of_mem h
  rw [replaceAllUses, List.foldl_append, List.foldl_cons]
  refine hkept later _ (fun other hother ↦ hnames other (by simp [hother])) ?_
  exact not_occursIn_replaceUses (hnames name h) _

/-- The text ends in an opening of the name that no slash has come after. -/
def LeavesOpen (name front : Text) : Prop :=
  ∃ before inner, front = before ++ opening name inner ∧ '/' ∉ inner ∧ inner ≠ [] ∧ StartsBlank inner

theorem LeavesOpen.replaceAllUses (hnames : ∀ name ∈ names, IsName name) (hother : IsName other)
    (h : LeavesOpen other front) : LeavesOpen other (replaceAllUses names front) := by
  obtain ⟨before, inner, rfl, hslash, hinner⟩ := h
  refine ⟨_, inner, replaceAllUses_append_of_not_mem hnames ?_ (by simp [opening]), hslash, hinner⟩
  exact slash_not_mem_opening hother hslash

theorem exists_eq_opening_of_append (hname : IsName name) {x : Char} (hx : x = '<' ∨ x = '\x7b')
    (hw : '/' ∉ w) (hne : w ≠ []) (hstarts : StartsBlank inner)
    (h : w ++ x :: v = opening name inner ++ '/' :: r) :
    ∃ more, w = opening name more ∧ more ≠ [] ∧ StartsBlank more := by
  have hword : Text.isWord x = false := by rcases hx with rfl | rfl <;> decide
  have hblank : Text.isBlank x = false := by rcases hx with rfl | rfl <;> decide
  have hslash : x ≠ '/' := by rcases hx with rfl | rfl <;> decide
  have hhead : x :: v ≠ inner ++ '/' :: r := by
    intro heq
    cases inner with
    | nil => exact hslash (List.cons.inj heq).1
    | cons b inner => exact hstarts.head_ne hblank (List.cons.inj heq).1.symm
  cases w with
  | nil => exact absurd rfl hne
  | cons y w =>
    simp only [opening, List.cons_append, List.append_assoc] at h
    obtain ⟨rfl, hrest⟩ := List.cons.inj h
    rcases List.append_eq_append_iff.1 hrest with ⟨more, rfl, htail⟩ | ⟨more, rfl, htail⟩
    · cases more with
      | nil => exact absurd htail hhead
      | cons y more =>
        obtain ⟨rfl, -⟩ := List.cons.inj htail
        exact absurd (List.mem_append_right w List.mem_cons_self) (hname.not_mem hword)
    · cases more with
      | nil => exact absurd htail.symm hhead
      | cons b more =>
        refine ⟨b :: more, rfl, List.cons_ne_nil b more, ?_⟩
        cases inner with
        | nil =>
          obtain ⟨rfl, -⟩ := List.cons.inj htail
          simp at hw
        | cons b' inner =>
          obtain ⟨rfl, -⟩ := List.cons.inj htail
          exact hstarts

theorem pieces_append_of_not_leavesOpen (hname : IsName name) (h : ¬ LeavesOpen name front)
    {x : Char} (hx : x = '<' ∨ x = '\x7b') :
    (selfClosing name).pieces (front ++ x :: v) =
      (selfClosing name).pieces front ++ (selfClosing name).pieces (x :: v) := by
  refine pieces_append_selfClosing hname fun w hw hne taken rest heq htakes ↦ ?_
  rcases reach_of_takes hname htakes heq with hprefix | hslash | ⟨-, hhead⟩
  · exact hprefix
  · obtain ⟨inner, rfl, -, hstarts⟩ := takes_selfClosing_iff.1 htakes
    rw [List.append_assoc] at heq
    obtain ⟨more, rfl, hmore, hblank⟩ :=
      exists_eq_opening_of_append hname hx hslash hne hstarts heq
    obtain ⟨before, rfl⟩ := hw
    refine absurd ⟨before, more, rfl, fun hmem ↦ hslash ?_, hmore, hblank⟩ h
    exact List.mem_cons_of_mem _ (List.mem_append_right name hmem)
  · obtain rfl : x = '>' := by simpa using hhead
    rcases hx with hx | hx <;> cases hx

theorem replaceUses_append_of_not_leavesOpen (hname : IsName name) (h : ¬ LeavesOpen name front)
    {x : Char} (hx : x = '<' ∨ x = '\x7b') :
    replaceUses name (front ++ x :: v) = replaceUses name front ++ replaceUses name (x :: v) := by
  rw [replaceUses, replace, pieces_append_of_not_leavesOpen hname h hx, List.flatMap_append]
  rfl

theorem replaceUses_append_of_bracket_not_mem (h : '<' ∉ u) (t : Text) :
    replaceUses name (u ++ t) = u ++ replaceUses name t := by
  refine replace_append_of_not_opens (isPlain_selfClosing name) _ fun w hw hne ↦ ?_
  obtain ⟨x, w, rfl⟩ := List.exists_cons_of_ne_nil hne
  exact not_opens_of_head_ne fun hx ↦ h (hw.subset (hx ▸ List.mem_cons_self))

theorem replaceUses_append_of_unopened (hname : IsName name) {x : Char}
    (hx : Text.isWord x = false) (h : ¬ '<' :: name <:+: u) (t : Text) :
    replaceUses name (u ++ x :: t) = u ++ replaceUses name (x :: t) := by
  refine replace_append_of_not_opens (isPlain_selfClosing name) _ fun w hw hne ↦ ?_
  rw [← Bool.not_eq_true, opens_iff_opening]
  rintro ⟨inner, r, heq, -⟩
  obtain ⟨y, w, rfl⟩ := List.exists_cons_of_ne_nil hne
  obtain ⟨rfl, hrest⟩ := List.cons.inj heq
  have hprefix : name <+: w :=
    Text.prefix_of_prefix_append_cons (hname.not_mem hx) ⟨inner ++ '/' :: '>' :: r, by
      rw [← List.append_assoc]; exact hrest.symm⟩
  exact h ((List.cons_prefix_cons.2 ⟨rfl, hprefix⟩).isInfix.trans hw.isInfix)

theorem replaceUses_opening_of_ne (hname : IsName name) (hother : IsName other) (hne : other ≠ name)
    (hstarts : StartsBlank inner) (hinner : ¬ '<' :: other <:+: inner) (r : Text) :
    replaceUses other (opening name inner ++ '/' :: r) =
      opening name inner ++ '/' :: replaceUses other r := by
  have hhead : ∀ inner r : Text, StartsBlank inner →
      ∃ x s, inner ++ '/' :: r = x :: s ∧ Text.isWord x = false := by
    intro inner r hstarts
    cases inner with
    | nil => exact ⟨'/', r, rfl, by decide⟩
    | cons b inner => exact ⟨b, _, rfl, Canvas.isWord_of_isBlank (hstarts b rfl)⟩
  have hopens : (selfClosing other).opens ('<' :: (name ++ inner ++ '/' :: r)) = false := by
    rw [← Bool.not_eq_true, opens_iff_opening]
    rintro ⟨inner', r', heq, -, hstarts'⟩
    simp only [opening, List.cons_append, List.append_assoc] at heq
    obtain ⟨x, s, hx, hxw⟩ := hhead inner r hstarts
    obtain ⟨y, s', hy, hyw⟩ := hhead inner' ('>' :: r') hstarts'
    rw [hx, hy] at heq
    exact hne (Text.append_cons_inj hname hother hxw hyw (List.cons.inj heq).2).1.symm
  have hpart : ¬ '<' :: other <:+: name ++ inner := by
    intro h
    rcases List.infix_append_iff.1 h with h | h | ⟨left, right, heq, hleft, hright⟩
    · exact hname.not_mem (by decide) (h.subset List.mem_cons_self)
    · exact hinner h
    · cases left with
      | nil =>
        rw [List.nil_append] at heq
        exact hinner (heq ▸ hright.isInfix)
      | cons y left =>
        obtain ⟨rfl, -⟩ := List.cons.inj heq
        exact hname.not_mem (by decide) (hleft.subset List.mem_cons_self)
  rw [opening, List.cons_append, replaceUses_cons hopens,
    replaceUses_append_of_unopened hother (by decide) hpart, replaceUses_cons
      (not_opens_of_head_ne (by decide)), List.cons_append]

theorem replaceUses_emptyExpression_append (name t : Text) :
    replaceUses name (emptyExpression ++ t) = emptyExpression ++ replaceUses name t :=
  replaceUses_append_of_bracket_not_mem (by decide) t

theorem replaceAllUses_append_emptyExpression (hnames : ∀ name ∈ names, IsName name)
    (hclosed : ∀ other ∈ names, ¬ LeavesOpen other (replaceAllUses names front)) :
    replaceAllUses names (front ++ (emptyExpression ++ rest)) =
      replaceAllUses names front ++ (emptyExpression ++ replaceAllUses names rest) := by
  induction names generalizing front rest with
  | nil => rfl
  | cons name names ih =>
    have hfront : ¬ LeavesOpen name front := fun h ↦
      hclosed name List.mem_cons_self (h.replaceAllUses hnames (hnames name List.mem_cons_self))
    have hstep : replaceUses name (front ++ (emptyExpression ++ rest)) =
        replaceUses name front ++ (emptyExpression ++ replaceUses name rest) := by
      rw [← replaceUses_emptyExpression_append]
      exact replaceUses_append_of_not_leavesOpen (hnames name List.mem_cons_self) hfront (.inr rfl)
    rw [replaceAllUses, List.foldl_cons, hstep]
    exact ih (fun other hother ↦ hnames other (List.mem_cons_of_mem name hother))
      fun other hother ↦ hclosed other (List.mem_cons_of_mem name hother)

theorem replaceAllUses_opening (hnames : ∀ name ∈ names, IsName name) (hname : name ∈ names)
    (hclosed : ∀ other ∈ names, ¬ LeavesOpen other (replaceAllUses names front))
    (hother : ∀ other ∈ names, other ≠ name → ¬ '<' :: other <:+: inner) (hinner : '/' ∉ inner)
    (hstarts : StartsBlank inner) :
    replaceAllUses names (front ++ (opening name inner ++ '/' :: '>' :: rest)) =
      replaceAllUses names front ++ (emptyExpression ++ replaceAllUses names rest) := by
  induction names generalizing front rest with
  | nil => cases hname
  | cons first names ih =>
    have hfirst : IsName first := hnames first List.mem_cons_self
    have hnames' : ∀ other ∈ names, IsName other := fun other h ↦
      hnames other (List.mem_cons_of_mem first h)
    have hclosed' : ∀ other ∈ names, ¬ LeavesOpen other (replaceAllUses (first :: names) front) :=
      fun other h ↦ hclosed other (List.mem_cons_of_mem first h)
    have hfront : ¬ LeavesOpen first front := fun h ↦
      hclosed first List.mem_cons_self (h.replaceAllUses hnames hfirst)
    have hstep : replaceUses first (front ++ (opening name inner ++ '/' :: '>' :: rest)) =
        replaceUses first front ++ replaceUses first (opening name inner ++ '/' :: '>' :: rest) :=
      replaceUses_append_of_not_leavesOpen hfirst hfront (.inl rfl)
    by_cases heq : first = name
    · subst heq
      rw [replaceUses_opening hfirst hinner hstarts] at hstep
      rw [replaceAllUses, List.foldl_cons, hstep]
      exact replaceAllUses_append_emptyExpression hnames' hclosed'
    · have hmem : name ∈ names := (List.mem_cons.1 hname).resolve_left (Ne.symm heq)
      rw [replaceUses_opening_of_ne (hnames name hname) hfirst heq hstarts
        (hother first List.mem_cons_self heq), replaceUses_cons (not_opens_of_head_ne (by decide))]
        at hstep
      rw [replaceAllUses, List.foldl_cons, hstep]
      exact ih hnames' hmem hclosed' fun other h ↦ hother other (List.mem_cons_of_mem first h)

theorem replaceAllUses_cons (names : List Text) {x : Char} (hx : x ≠ '<') (t : Text) :
    replaceAllUses names (x :: t) = x :: replaceAllUses names t := by
  induction names generalizing t with
  | nil => rfl
  | cons name names ih =>
    rw [replaceAllUses, List.foldl_cons, replaceUses_cons (not_opens_of_head_ne hx)]
    exact ih _

theorem replaceAllUses_append_of_unopened (hnames : ∀ name ∈ names, IsName name) {x : Char}
    (hx : Text.isWord x = false) (hbracket : x ≠ '<')
    (h : ∀ name ∈ names, ¬ '<' :: name <:+: u) :
    replaceAllUses names (u ++ x :: rest) = u ++ x :: replaceAllUses names rest := by
  induction names generalizing rest with
  | nil => rfl
  | cons name names ih =>
    obtain ⟨hname, hnames⟩ := List.forall_mem_cons.1 hnames
    obtain ⟨hu, h⟩ := List.forall_mem_cons.1 h
    rw [replaceAllUses, List.foldl_cons, replaceUses_append_of_unopened hname hx hu,
      replaceUses_cons (not_opens_of_head_ne hbracket)]
    exact ih hnames h

theorem exists_replaceUses_eq_concat (hname : IsName name) (u : Text) :
    ∃ v x, replaceUses name (u ++ ['/', '>']) = v ++ [x] ∧ (x = '>' ∨ x = '\x7d') := by
  induction hlength : u.length using Nat.strongRecOn generalizing u with
  | ind n ih =>
    cases u with
    | nil =>
      have hend : replaceUses name (['/', '>'] ++ []) = ['/', '>'] ++ replaceUses name [] :=
        replaceUses_append_of_bracket_not_mem (by decide) []
      exact ⟨['/'], '>', hend, .inl rfl⟩
    | cons x u =>
      rcases replaceUses_cases hname x (u ++ ['/', '>']) with ⟨inner, r, heq, -, hreplace⟩ |
        ⟨-, hreplace⟩
      · have hsplit : (x :: u) ++ ['/', '>'] = (opening name inner ++ ['/', '>']) ++ r := by
          rw [List.append_assoc]
          exact heq
        have hrest : r = [] ∨ ∃ u', r = u' ++ ['/', '>'] := by
          rcases List.append_eq_append_iff.1 hsplit with ⟨c, hc, hr⟩ | ⟨c, -, hr⟩
          · match c, r, hr with
            | [], _, rfl => exact .inr ⟨[], rfl⟩
            | [_], [_], rfl =>
              have hends := congrArg List.reverse hc
              simp at hends
            | [_, _], [], _ => exact .inl rfl
          · exact .inr ⟨c, hr⟩
        rw [List.cons_append, hreplace]
        rcases hrest with rfl | ⟨u', rfl⟩
        · exact ⟨['\x7b', 'n', 'u', 'l', 'l'], '\x7d', rfl, .inr rfl⟩
        · have hlt : u'.length < n := by
            have := congrArg List.length hsplit
            simp only [List.length_append, List.length_cons, List.length_nil] at this hlength
            omega
          obtain ⟨v, y, hv, hy⟩ := ih u'.length hlt u' rfl
          exact ⟨emptyExpression ++ v, y, by rw [hv, List.append_assoc], hy⟩
      · obtain ⟨v, y, hv, hy⟩ := ih u.length (by simp only [List.length_cons] at hlength; omega) u rfl
        exact ⟨x :: v, y, by rw [List.cons_append, hreplace, hv]; rfl, hy⟩

theorem replaceUses_append_end (hname : IsName name) (u r : Text) :
    replaceUses name (u ++ '/' :: '>' :: r) =
      replaceUses name (u ++ ['/', '>']) ++ replaceUses name r := by
  have hsplit : u ++ '/' :: '>' :: r = (u ++ ['/'] ++ ['>']) ++ r := by simp
  rw [hsplit, show u ++ ['/', '>'] = u ++ ['/'] ++ ['>'] by simp]
  refine replaceUses_append hname fun w hw hne taken rest heq htakes ↦ ?_
  obtain ⟨w, rfl, hmore⟩ := (List.suffix_concat_iff.1 hw).resolve_left hne
  rcases reach_of_takes hname htakes heq with hprefix | hslash | ⟨hends, -⟩
  · exact hprefix
  · rcases List.suffix_concat_iff.1 hmore with rfl | ⟨w, rfl, -⟩
    · obtain ⟨inner, rfl, -⟩ := takes_selfClosing_iff.1 htakes
      cases heq
    · simp at hslash
  · simp at hends

/-- A pass makes no opening of a name. -/
theorem infix_of_infix_replaceUses (hother : IsName other)
    (h : '<' :: other <:+: replaceUses name t) : '<' :: other <:+: t := by
  have hnot : ∀ {c}, Text.isWord c = false → c ≠ '<' → c ∉ '<' :: other := fun hc hne hmem ↦
    (List.mem_cons.1 hmem).elim hne (hother.not_mem hc)
  refine @infix_of_infix_replace _ _ "null" '\x7b' '\x7d' (hnot (by decide) (by decide))
    (hnot (by decide) (by decide)) (fun hnull ↦ ?_) _ h
  exact absurd (hnull.subset List.mem_cons_self) (by decide)

theorem exists_replaceAllUses_append_end (hnames : ∀ name ∈ names, IsName name)
    (hnodup : names.Nodup) (hname : name ∈ names)
    (h : ∀ other ∈ names, other ≠ name → ¬ '<' :: other <:+: u) (rest : Text) :
    ∃ v, v ≠ [] ∧
      replaceAllUses names (u ++ '/' :: '>' :: rest) = v ++ replaceAllUses names rest := by
  obtain ⟨before, later, rfl⟩ := List.append_of_mem hname
  obtain ⟨-, hnodup, hdisjoint⟩ := List.nodup_append.1 hnodup
  have hbefore : replaceAllUses before (u ++ '/' :: '>' :: rest) =
      u ++ '/' :: '>' :: replaceAllUses before rest := by
    have hnames' : ∀ other ∈ before, IsName other := fun other hother ↦
      hnames other (List.mem_append_left _ hother)
    rw [replaceAllUses_append_of_unopened hnames' (by decide) (by decide) fun other hother ↦
      h other (List.mem_append_left _ hother) (hdisjoint other hother name List.mem_cons_self),
      replaceAllUses_cons before (by decide)]
  obtain ⟨v, x, hv, hx⟩ := exists_replaceUses_eq_concat (hnames name hname) u
  have hlater : ∀ other ∈ later, IsName other ∧ ¬ '<' :: other <:+: v := by
    intro other hother
    have hmem : other ∈ before ++ name :: later := by simp [hother]
    have hne : other ≠ name := by
      rintro rfl
      exact (List.nodup_cons.1 hnodup).1 hother
    refine ⟨hnames other hmem, fun hpart ↦ h other hmem hne ?_⟩
    have hpass : '<' :: other <:+: replaceUses name (u ++ ['/', '>']) := by
      rw [hv]
      exact hpart.trans (List.prefix_append v [x]).isInfix
    have hwhole := infix_of_infix_replaceUses (hnames other hmem) hpass
    have hslash : '/' ∉ '<' :: other := by simpa using (hnames other hmem).not_mem (by decide)
    rcases (Text.infix_append_cons_iff hslash).1 hwhole with hu | hend
    · exact hu
    · exact absurd (hend.subset List.mem_cons_self) (by decide)
  refine ⟨v ++ [x], by simp, ?_⟩
  have hword : Text.isWord x = false ∧ x ≠ '<' := by rcases hx with rfl | rfl <;> decide
  have hsplit : ∀ t, replaceAllUses (before ++ name :: later) t =
      replaceAllUses later (replaceUses name (replaceAllUses before t)) := by
    intro t
    rw [replaceAllUses, List.foldl_append, List.foldl_cons]
    rfl
  rw [hsplit, hsplit, hbefore, replaceUses_append_end (hnames name hname), hv, List.append_assoc,
    List.singleton_append, replaceAllUses_append_of_unopened (fun other hother ↦
      (hlater other hother).1) hword.1 hword.2 fun other hother ↦ (hlater other hother).2,
    List.append_assoc, List.singleton_append]

theorem replaceAllUses_opening_ne (hnames : ∀ name ∈ names, IsName name) (hnodup : names.Nodup)
    (hname : name ∈ names)
    (hclosed : ∀ other ∈ names, ¬ LeavesOpen other (replaceAllUses names front))
    (hother : ∀ other ∈ names, other ≠ name → ¬ '<' :: other <:+: inner) (hinner : '/' ∈ inner)
    (hstarts : StartsBlank inner) :
    replaceAllUses names (front ++ (opening name inner ++ '/' :: '>' :: rest)) ≠
      replaceAllUses names front ++ (emptyExpression ++ replaceAllUses names rest) := by
  intro hreplaced
  obtain ⟨first, more, rfl, hnot⟩ := List.eq_append_cons_of_mem hinner
  have hblank : StartsBlank first := by
    cases first with
    | nil => exact fun c hc ↦ by cases hc
    | cons b first => exact hstarts
  have hwithin : ∀ u : Text, u <:+: first ++ '/' :: more → ∀ other ∈ names, other ≠ name →
      ¬ '<' :: other <:+: u :=
    fun u hu other hmem hne hpart ↦ hother other hmem hne (hpart.trans hu)
  by_cases hend : more.head? = some '>'
  · -- The slash ends a tag, and the rest of the element is left over.
    obtain ⟨more, rfl⟩ := List.head?_eq_some_iff.1 hend
    have hshort : opening name (first ++ '/' :: '>' :: more) ++ '/' :: '>' :: rest =
        opening name first ++ '/' :: '>' :: (more ++ '/' :: '>' :: rest) := by simp [opening]
    obtain ⟨v, hv, hmore⟩ := exists_replaceAllUses_append_end hnames hnodup hname
      (hwithin more ⟨first ++ ['/', '>'], [], by simp⟩) rest
    rw [hshort, replaceAllUses_opening hnames hname hclosed
      (hwithin first (List.prefix_append first _).isInfix) hnot hblank, hmore] at hreplaced
    have hlength := congrArg List.length hreplaced
    have hpos := List.length_pos_iff.2 hv
    simp only [List.length_append] at hlength
    omega
  · -- The element is kept up to the slash.
    have hhead : (more ++ '/' :: '>' :: rest).head? ≠ some '>' := by
      cases more with
      | nil => simp
      | cons c more => exact hend
    have hkept : front ++ (opening name (first ++ '/' :: more) ++ '/' :: '>' :: rest) =
        (front ++ opening name first) ++ '/' :: (more ++ '/' :: '>' :: rest) := by simp [opening]
    have hopening : '/' ∉ opening name first := slash_not_mem_opening (hnames name hname) hnot
    rw [hkept, replaceAllUses_append_slash hnames hhead,
      replaceAllUses_append_of_not_mem hnames hopening (by simp [opening]), List.append_assoc]
      at hreplaced
    exact absurd (List.append_cancel_left hreplaced) (by simp [opening, emptyExpression])

/-- Where an import binds a name, no element of the name is left whose values have no slash. An
element that no opening reaches up to, and in which no other bound name opens, is replaced as a whole
if and only if no value in it has a slash. -/
theorem element_replaced_iff (hname : name ∈ boundNames id content) (element : Element) :
    (element.text name <:+: strip id content → ∃ p ∈ element.attributes, '/' ∈ p.2.value) ∧
    ∀ front rest, (defaultImport id).erase content = front ++ (element.text name ++ rest) →
      (∀ other ∈ boundNames id content,
        ¬ LeavesOpen other (replaceAllUses (boundNames id content) front)) →
      (∀ other ∈ boundNames id content, other ≠ name → ¬ '<' :: other <:+: element.inner) →
      (strip id content = replaceAllUses (boundNames id content) front ++
          (emptyExpression ++ replaceAllUses (boundNames id content) rest) ↔
        ∀ p ∈ element.attributes, '/' ∉ p.2.value) := by
  have hnames : ∀ name ∈ boundNames id content, IsName name := fun _ ↦ isName_of_mem_boundNames
  constructor
  · rintro ⟨front, rest, heq⟩
    rw [← element.slash_mem_inner_iff]
    by_cases hinner : '/' ∈ element.inner
    · exact hinner
    · have htakes : (selfClosing name).Takes front.getLast? (element.text name) rest :=
        takes_selfClosing_iff.2 ⟨element.inner, rfl, hinner, element.startsBlank_inner⟩
      have hoccurs : (selfClosing name).occursIn (strip id content) = true :=
        (occursIn_iff _ _).2 ⟨front, _, rest, by rw [← heq, List.append_assoc], htakes⟩
      rw [strip_eq, not_occursIn_replaceAllUses hnames hname] at hoccurs
      cases hoccurs
  · intro front rest heq hclosed hother
    have hslash : (∀ p ∈ element.attributes, '/' ∉ p.2.value) ↔ '/' ∉ element.inner := by
      rw [element.slash_mem_inner_iff]
      simp
    have htext : element.text name ++ rest = opening name element.inner ++ '/' :: '>' :: rest := by
      simp [Element.text]
    rw [strip_eq, heq, htext, hslash]
    constructor
    · intro hreplaced hinner
      exact replaceAllUses_opening_ne hnames (Text.nodup_distinct _) hname hclosed hother hinner
        element.startsBlank_inner hreplaced
    · intro hinner
      exact replaceAllUses_opening hnames hname hclosed hother hinner element.startsBlank_inner

def sized : Element where
  attributes := [(" ", .quoted "size" "2")]
  closing := " "
  blanks := List.forall_mem_singleton.2 ⟨by decide, Text.forall_mem_of_all (by decide)⟩
  simple := by
    intro p hp
    obtain rfl := List.mem_singleton.1 hp
    exact ⟨by decide, Text.forall_mem_of_all (by decide), by decide⟩
  closing_blank := Text.forall_mem_of_all (by decide)

theorem element_replaced_iff_of_sized :
    ("Card" : Text) ∈
        boundNames "card" "import Card from \"./components/card\";\n<Card size=\"2\" />\n" ∧
      strip "card" "import Card from \"./components/card\";\n<Card size=\"2\" />\n" =
        "\x7bnull\x7d\n" := by
  have hname : ("Card" : Text) ∈
      boundNames "card" "import Card from \"./components/card\";\n<Card size=\"2\" />\n" := by
    decide
  refine ⟨hname, ((element_replaced_iff hname sized).2 [] "\n" (by decide) ?_ ?_).2 (by decide)⟩
  · rintro other - ⟨before, inner, heq, -⟩
    exact absurd (List.append_eq_nil_iff.1 heq.symm).2 (List.cons_ne_nil _ _)
  · intro other hother hne
    revert other
    decide

/-- An address in a value has a slash in it, and keeps the element. -/
theorem element_with_address_kept :
    strip "card" "import Card from \"./components/card\";\n<Card href=\"/about\" />\n" =
      "<Card href=\"/about\" />\n" := by
  decide

end Component.References

end CanvasLift
