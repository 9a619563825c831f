import CanvasLift.Proofs.Canvas.Callback
import CanvasLift.Proofs.Canvas.Scope

namespace CanvasLift.Canvas

open Pattern

variable {last : Option Char} {c : Char} {t u v handler inside rest out : Text} {names : List Text}

theorem opens_collapseCallback_iff : collapseCallback.opens t = true ↔
    ∃ handler rest, t = (callback handler).text ++ rest ∧ IsFlat handler := by
  rw [Pattern.opens_iff]
  constructor
  · intro h
    obtain ⟨_, rest, rfl, htakes⟩ := h
    obtain ⟨handler, rfl, hflat⟩ := takes_collapseCallback.1 htakes
    exact ⟨handler, rest, rfl, hflat⟩
  · intro h
    obtain ⟨handler, rest, rfl, hflat⟩ := h
    exact ⟨_, rest, rfl, takes_collapseCallback.2 ⟨handler, rfl, hflat⟩⟩

theorem opens_collapseCallback_of_ne (hc : c ≠ 'o') : collapseCallback.opens (c :: t) = false := by
  rw [← Bool.not_eq_true, opens_collapseCallback_iff]
  intro h
  obtain ⟨handler, rest, heq, -⟩ := h
  exact hc (List.cons.inj heq).1

theorem normalizeCallbacks_cons (h : collapseCallback.opens (c :: t) = false) :
    normalizeCallbacks (c :: t) = c :: normalizeCallbacks t :=
  replace_cons finds_collapseCallback.isPlain _ h

theorem normalizeCallbacks_eq_cons (hc : c ≠ 'o') (h : normalizeCallbacks t = c :: out) :
    ∃ rest, t = c :: rest ∧ normalizeCallbacks rest = out := by
  cases t with
  | nil => cases h
  | cons d t =>
    cases hopens : collapseCallback.opens (d :: t) with
    | true =>
      obtain ⟨handler, rest, heq, hflat⟩ := opens_collapseCallback_iff.1 hopens
      rw [heq, normalizeCallbacks_found hflat] at h
      exact absurd (List.cons.inj h).1.symm hc
    | false =>
      rw [normalizeCallbacks_cons hopens] at h
      obtain ⟨rfl, rfl⟩ := List.cons.inj h
      exact ⟨t, rfl, rfl⟩

theorem firstWord_normalizeCallbacks (t : Text) : firstWord (normalizeCallbacks t) = firstWord t := by
  induction t with
  | nil => rfl
  | cons c t ih =>
    cases hopens : collapseCallback.opens (c :: t) with
    | true =>
      obtain ⟨handler, rest, heq, hflat⟩ := opens_collapseCallback_iff.1 hopens
      rw [heq, normalizeCallbacks_found hflat]
      rfl
    | false =>
      rw [normalizeCallbacks_cons hopens, firstWord, firstWord, List.takeWhile_cons,
        List.takeWhile_cons]
      split
      · exact congrArg (c :: ·) ih
      · rfl

theorem isFlat_iff : IsFlat t ↔ t ≠ [] ∧ '\x7d' ∉ t ∧ '\n' ∉ t := by
  refine and_congr_right fun _ ↦ ⟨fun h ↦ ⟨?_, ?_⟩, fun h c hc ↦ ⟨?_, ?_⟩⟩
  · exact fun hmem ↦ (h _ hmem).1 rfl
  · exact fun hmem ↦ (h _ hmem).2 rfl
  · exact fun heq ↦ h.1 (heq ▸ hc)
  · exact fun heq ↦ h.2 (heq ▸ hc)

theorem Reads.isFlat_iff (h : Reads last t names out) : IsFlat out ↔ IsFlat t := by
  rw [Canvas.isFlat_iff, Canvas.isFlat_iff, Ne, Ne, h.eq_nil_iff, h.mem_iff (by decide),
    h.mem_iff (by decide)]

theorem separates_brace : Separates '\x7b' ∧ Separates '\x7d' := by
  refine ⟨⟨?_, ?_⟩, ?_, ?_⟩ <;> decide

theorem reads_callbackLead (last : Option Char) : Reads last callbackLead [] callbackLead := by
  have hplain : Reads last (callbackLead ++ []) [] (callbackLead ++ []) :=
    Reads.plain (by decide) (by decide) .nil
  rwa [List.append_nil] at hplain

theorem Reads.of_callback (h : Reads last ((callback handler).text ++ v) names out) :
    ∃ names₁ inside names₂ rest, Reads (some '\x7b') handler names₁ inside ∧
      Reads (some '\x7d') v names₂ rest ∧ names = names₁ ++ names₂ ∧
      out = (callback inside).text ++ rest := by
  have htext : (callback handler).text ++ v = callbackLead ++ '\x7b' :: (handler ++ '\x7d' :: v) := by
    simp [text_callback]
  rw [htext] at h
  obtain ⟨names₀, lead, _, _, hlead, hinside, rfl, rfl⟩ := h.split separates_brace.1
  obtain ⟨names₁, inside, names₂, rest, hhandler, hv, rfl, rfl⟩ := hinside.split separates_brace.2
  obtain ⟨rfl, rfl⟩ := hlead.unique (reads_callbackLead last)
  exact ⟨names₁, inside, names₂, rest, hhandler, hv, rfl, by simp [text_callback]⟩

theorem captures_callback (h : Reads (some '\x7b') handler names inside) :
    scopeReference.captures (callback handler).text = names := by
  have hline := reads_line (callback handler).text
  rw [← List.append_nil (callback handler).text] at hline
  obtain ⟨names₁, _, names₂, _, hhandler, hnil, heq, -⟩ := hline.of_callback
  obtain ⟨rfl, -⟩ := hhandler.unique h
  cases hnil
  rwa [List.append_nil, List.append_nil] at heq

theorem Reads.exists_of_word (hlast : last.any Text.isWord = true)
    (hu : ∀ c ∈ u, Text.isWord c = true) (h : Reads last t names (u ++ out)) :
    ∃ v, t = u ++ v ∧ Reads (lastOver last u) v names out := by
  induction u generalizing last t with
  | nil => exact ⟨t, rfl, h⟩
  | cons c u ih =>
    obtain ⟨hc, hu⟩ := List.forall_mem_cons.1 hu
    have hword : (some c).any Text.isWord = true := hc
    obtain ⟨t₁, rfl, h₁⟩ := h.exists_of_cons (.inl hlast)
    obtain ⟨v, rfl, h₂⟩ := ih hword hu h₁
    exact ⟨v, rfl, by rwa [lastOver_cons]⟩

theorem Reads.opens (h : Reads (some 'o') t names out)
    (hopens : collapseCallback.opens ('o' :: out) = true) :
    collapseCallback.opens ('o' :: t) = true := by
  have hlead : callbackLead = 'o' :: ("nCollapsedChange" ++ ['=']) := rfl
  obtain ⟨inside, rest, heq, hflat⟩ := opens_collapseCallback_iff.1 hopens
  obtain rfl : out = "nCollapsedChange" ++ '=' :: '\x7b' :: (inside ++ '\x7d' :: rest) := by
    rw [text_callback, hlead] at heq
    simpa using (List.cons.inj heq).2
  obtain ⟨t₁, ht, h₁⟩ := h.exists_of_word rfl (Text.forall_mem_of_all (by decide))
  obtain ⟨t₂, rfl, h₂⟩ := h₁.exists_of_cons (.inr rfl)
  obtain ⟨t₃, rfl, h₃⟩ := h₂.exists_of_cons (.inr rfl)
  have hclosed : '\x7d' ∈ t₃ := (h₃.mem_iff (by decide)).1 (by simp)
  obtain ⟨handler, v, rfl, hnone⟩ := List.eq_append_cons_of_mem hclosed
  obtain ⟨_, found, _, _, hhandler, -, -, hout⟩ := h₃.split separates_brace.2
  have hfound : '\x7d' ∉ found := mt (hhandler.mem_iff (by decide)).1 hnone
  obtain rfl := Text.eq_of_append_cons (Canvas.isFlat_iff.1 hflat).2.1 hfound hout
  refine opens_collapseCallback_iff.2 ⟨handler, v, ?_, hhandler.isFlat_iff.1 hflat⟩
  rw [ht, text_callback, hlead]
  simp

/-- To normalize callbacks takes the references of their handlers out of a text, and does not change what
is left of it otherwise. -/
theorem Reads.normalize (h : Reads last t names out) :
    ∃ names', Reads last (normalizeCallbacks t) names' (normalizeCallbacks out) ∧
      names'.Sublist names ∧
      names.Perm (names' ++ (collapseCallback.parts t).flatMap scopeReference.captures) := by
  induction hlength : t.length using Nat.strongRecOn generalizing last t names out with
  | ind n ih =>
    cases hopens : collapseCallback.opens t with
    | true =>
      obtain ⟨handler, v, rfl, hflat⟩ := opens_collapseCallback_iff.1 hopens
      obtain ⟨names₁, inside, names₂, rest, hhandler, hv, rfl, rfl⟩ := h.of_callback
      have hshorter : v.length < n := by
        rw [← hlength, text_callback]
        simp
        omega
      obtain ⟨names', hreads, hsub, hperm⟩ := ih v.length hshorter hv rfl
      have hparts : collapseCallback.parts ((callback handler).text ++ v) =
          (callback handler).text :: collapseCallback.parts v :=
        parts_append_of_takes finds_collapseCallback.isPlain finds_collapseCallback.unique
          (List.cons_ne_nil _ _) (takes_collapseCallback.2 ⟨handler, rfl, hflat⟩)
      rw [normalizeCallbacks_found hflat, normalizeCallbacks_found (hhandler.isFlat_iff.2 hflat),
        hparts, List.flatMap_cons, captures_callback hhandler]
      refine ⟨names', Reads.plain (by decide) (by decide) hreads, ?_, ?_⟩
      · exact hsub.trans (List.sublist_append_right names₁ names₂)
      · exact (hperm.append_left names₁).trans (List.perm_append_comm_assoc _ _ _)
    | false =>
      cases h with
      | nil => exact ⟨[], .nil, .slnil, .refl _⟩
      | @reference _ u out names hlast hname h =>
        have hshorter : u.length < n := by
          rw [← hlength]
          simp
          omega
        obtain ⟨names', hreads, hsub, hperm⟩ := ih u.length hshorter h rfl
        have hl : collapseCallback.opens ('l' :: '.' :: u) = false :=
          opens_collapseCallback_of_ne (by decide)
        have hdot : collapseCallback.opens ('.' :: u) = false :=
          opens_collapseCallback_of_ne (by decide)
        have hplain := finds_collapseCallback.isPlain
        rw [normalizeCallbacks_cons hopens, normalizeCallbacks_cons hl, normalizeCallbacks_cons hdot,
          parts_cons hplain hopens, parts_cons hplain hl, parts_cons hplain hdot]
        rw [← firstWord_normalizeCallbacks] at hname ⊢
        exact ⟨_, .reference hlast hname hreads, hsub.cons_cons _, hperm.cons _⟩
      | @letter _ c t out names hnone h =>
        obtain ⟨names', hreads, hsub, hperm⟩ := ih t.length (by simp [← hlength]) h rfl
        have hout : collapseCallback.opens (c :: out) = false := by
          by_cases hc : c = 'o'
          · subst hc
            rw [← Bool.not_eq_true]
            intro hout
            rw [h.opens hout] at hopens
            cases hopens
          · exact opens_collapseCallback_of_ne hc
        rw [normalizeCallbacks_cons hopens, normalizeCallbacks_cons hout,
          parts_cons finds_collapseCallback.isPlain hopens]
        refine ⟨names', .letter ?_ hreads, hsub, hperm⟩
        intro hrefers
        obtain ⟨hlast, w, heq, hname⟩ := hrefers
        obtain ⟨rfl, heq₁⟩ := List.cons.inj heq
        obtain ⟨t₁, rfl, heq₂⟩ := normalizeCallbacks_eq_cons (by decide) heq₁
        obtain ⟨t₂, rfl, rfl⟩ := normalizeCallbacks_eq_cons (by decide) heq₂
        rw [firstWord_normalizeCallbacks] at hname
        exact hnone ⟨hlast, t₂, rfl, hname⟩

/-- On a line both rewrites can change places, and of its references those in handlers go. -/
theorem references_normalized (line : Text) :
    normalizeCallbacks (resolveReferences line) = resolveReferences (normalizeCallbacks line) ∧
      (scopeReference.captures (normalizeCallbacks line)).Sublist (scopeReference.captures line) ∧
      (scopeReference.captures line).Perm (scopeReference.captures (normalizeCallbacks line) ++
        (collapseCallback.parts line).flatMap scopeReference.captures) := by
  obtain ⟨names, hreads, hsub, hperm⟩ := (reads_line line).normalize
  obtain ⟨rfl, hout⟩ := hreads.unique (reads_line (normalizeCallbacks line))
  exact ⟨hout, hsub, hperm⟩

/-- The lines of a block without what they have for the canvas only. -/
def strippedLines (block : Text) : List Text :=
  (dedent (Text.lines (Text.joinBreaks block))).map stripAffordances

/-- The names of the references that no replaced handler takes away. -/
def surviving (lines : List Text) : List Text :=
  lines.flatMap fun line ↦ scopeReference.captures (normalizeCallbacks line)

/-- The names of the references in replaced handlers. -/
def replaced (lines : List Text) : List Text :=
  lines.flatMap fun line ↦ (collapseCallback.parts line).flatMap scopeReference.captures

theorem surviving_sublist (lines : List Text) :
    (surviving lines).Sublist (lines.flatMap scopeReference.captures) := by
  induction lines with
  | nil => exact .slnil
  | cons line lines ih => exact (references_normalized line).2.1.append ih

theorem perm_surviving_append (lines : List Text) :
    (lines.flatMap scopeReference.captures).Perm (surviving lines ++ replaced lines) := by
  induction lines with
  | nil => exact .refl _
  | cons line lines ih =>
    have hboth := (references_normalized line).2.2.append ih
    rw [surviving, replaced, List.flatMap_cons, List.flatMap_cons, List.flatMap_cons, ← surviving,
      ← replaced, List.append_assoc]
    rw [List.append_assoc] at hboth
    exact hboth.trans ((List.perm_append_comm_assoc _ _ _).append_left _)

theorem props_ofBlock (block : Text) : (Markup.ofBlock block).props =
    Text.distinct (((strippedLines block).flatMap scopeReference.captures).filter (· ≠ reservedName)) := by
  rw [← Text.filter_distinct, ← foldl_recordReferences]
  rfl

theorem body_ofBlock (block : Text) :
    (Markup.ofBlock block).body = Text.unlines ((strippedLines block).map fun line ↦
        resolveReferences (normalizeCallbacks line)) ∨
      (Markup.ofBlock block).body = [] ∧ surviving (strippedLines block) = [] := by
  have hlines : ((strippedLines block).map fun line ↦ normalizeCallbacks (resolveReferences line)) =
      (strippedLines block).map fun line ↦ resolveReferences (normalizeCallbacks line) :=
    List.map_congr_left fun line _ ↦ (references_normalized line).1
  have hbody : (Markup.ofBlock block).body =
      if Text.allBlank (Text.unlines ((strippedLines block).map fun line ↦
        normalizeCallbacks (resolveReferences line))) then []
      else Text.unlines ((strippedLines block).map fun line ↦
        normalizeCallbacks (resolveReferences line)) := rfl
  rw [hbody, hlines]
  split
  · next hblank =>
    refine .inr ⟨rfl, List.flatMap_eq_nil_iff.2 fun line hline ↦ ?_⟩
    by_contra hnames
    obtain ⟨c, hc, hchar⟩ := (reads_line (normalizeCallbacks line)).exists_isNameChar hnames
    have hmem : resolveReferences (normalizeCallbacks line) ∈ (strippedLines block).map fun line ↦
        resolveReferences (normalizeCallbacks line) := List.mem_map.2 ⟨line, hline, rfl⟩
    have hc := List.all_eq_true.1 hblank c ((Text.infix_joinWith_of_mem hmem).subset hc)
    rw [isBlank_of_isNameChar hchar] at hc
    cases hc
  · exact .inl rfl

/-- The props are the names of all references, those of replaced handlers included. If these have no
name but the reserved one, the props are the surviving names in the order in which they come first. In
general they are so exactly if all other names of replaced handlers survive elsewhere, and no handler
puts names out of order. -/
theorem props_surviving_iff (block : Text) :
    (Markup.ofBlock block).props.Nodup ∧
    ((Markup.ofBlock block).body = Text.unlines ((strippedLines block).map fun line ↦
        resolveReferences (normalizeCallbacks line)) ∨
      (Markup.ofBlock block).body = [] ∧ surviving (strippedLines block) = []) ∧
    (∀ name, name ∈ (Markup.ofBlock block).props ↔ name ≠ reservedName ∧
      (name ∈ surviving (strippedLines block) ∨ name ∈ replaced (strippedLines block))) ∧
    ((∀ name ∈ replaced (strippedLines block), name = reservedName) →
      (Markup.ofBlock block).props =
        Text.distinct ((surviving (strippedLines block)).filter (· ≠ reservedName))) ∧
    ((Markup.ofBlock block).props =
        Text.distinct ((surviving (strippedLines block)).filter (· ≠ reservedName)) ↔
      (∀ name ∈ replaced (strippedLines block), name ≠ reservedName →
        name ∈ surviving (strippedLines block)) ∧
      (Markup.ofBlock block).props.Pairwise fun m n ↦
        ((surviving (strippedLines block)).filter (· ≠ reservedName)).idxOf m <
          ((surviving (strippedLines block)).filter (· ≠ reservedName)).idxOf n) := by
  have hperm := perm_surviving_append (strippedLines block)
  have hsub := surviving_sublist (strippedLines block)
  have hmem : ∀ name, name ∈ (Markup.ofBlock block).props ↔ name ≠ reservedName ∧
      (name ∈ surviving (strippedLines block) ∨ name ∈ replaced (strippedLines block)) := by
    intro name
    rw [props_ofBlock, Text.mem_distinct_iff, List.mem_filter, hperm.mem_iff, List.mem_append,
      decide_eq_true_iff, and_comm]
  refine ⟨?_, body_ofBlock block, hmem, ?_, ?_⟩
  · rw [props_ofBlock]
    exact Text.nodup_distinct _
  · intro hreserved
    have hnone : (replaced (strippedLines block)).filter (· ≠ reservedName) = [] :=
      List.filter_eq_nil_iff.2 fun name hname ↦ by simp [hreserved name hname]
    have hlength := (hperm.filter (· ≠ reservedName)).length_eq
    rw [List.filter_append, hnone, List.append_nil] at hlength
    rw [props_ofBlock, (hsub.filter (· ≠ reservedName)).eq_of_length hlength.symm]
  · rw [Text.eq_distinct_iff]
    refine and_congr_left fun _ ↦ ⟨fun h name hname hne ↦ ?_, fun h name ↦ ?_⟩
    · have hprop := (h name).1 ((hmem name).2 ⟨hne, .inr hname⟩)
      exact (List.mem_filter.1 hprop).1
    · rw [hmem, List.mem_filter, decide_eq_true_iff, and_comm]
      refine and_congr_left fun hne ↦ ⟨fun h' ↦ h'.elim id fun hname ↦ h name hname hne, .inl⟩

/-- The handler of the sidebar goes with its reference to the reserved name. -/
theorem props_surviving_iff_of_sidebar :
    (Markup.ofBlock "<A open=\x7bel.open\x7d\n  onCollapsedChange=\x7bset(el.id)\x7d />").props =
      Text.distinct ((surviving
        ["<A open=\x7bel.open\x7d", "  onCollapsedChange=\x7bset(el.id)\x7d />"]).filter
          (· ≠ reservedName)) := by
  have hlines : strippedLines "<A open=\x7bel.open\x7d\n  onCollapsedChange=\x7bset(el.id)\x7d />" =
      ["<A open=\x7bel.open\x7d", "  onCollapsedChange=\x7bset(el.id)\x7d />"] := by decide
  have hprops := (props_surviving_iff
    "<A open=\x7bel.open\x7d\n  onCollapsedChange=\x7bset(el.id)\x7d />").2.2.2.1
  rw [hlines] at hprops
  exact hprops (by decide)

/-- The reference of a handler that goes is a prop nevertheless, and can put others out of order. -/
theorem replaced_reference_kept :
    Markup.ofBlock "<A onCollapsedChange=\x7b() => set(el.open)\x7d />" =
        ⟨"<A onCollapsedChange=\x7b() => \x7b\x7d\x7d />", ["open"]⟩ ∧
      surviving (strippedLines "<A onCollapsedChange=\x7b() => set(el.open)\x7d />") = [] ∧
      (Markup.ofBlock "onCollapsedChange=\x7bel.b\x7d\x7bel.a\x7d\x7bel.b\x7d").props =
        (["b", "a"] : List Text) ∧
      surviving (strippedLines "onCollapsedChange=\x7bel.b\x7d\x7bel.a\x7d\x7bel.b\x7d") =
        (["a", "b"] : List Text) := by
  decide

end CanvasLift.Canvas
