import CanvasLift.Component.References
import CanvasLift.Proofs.Identifier
import CanvasLift.Proofs.Pattern.Piece
import CanvasLift.Proofs.Text.Breaks

/-!
What the removal of references leaves of a text, and what it is to leave of the file that the text
is read from. The main statement is that reading what is left of the file gives what is left of the
text.
-/

namespace CanvasLift

open Text (Sign)

namespace Pattern

/-- Each match replaced in what a text is read from. -/
def replaceSigns (a : Pattern) (f : Text → Text) (signs : List Sign) : List Sign :=
  splice (fun captured ↦ Sign.ofText (f captured)) (a.pieces (Sign.readAll signs)) signs

theorem readAll_replaceSigns {a : Pattern} {f : Text → Text} (hf : ∀ captured, '\r' ∉ f captured)
    (signs : List Sign) :
    Sign.readAll (a.replaceSigns f signs) = a.replace f (Sign.readAll signs) := by
  refine (map_splice (flatMap_text_pieces a (Sign.readAll signs))).trans ?_
  rw [replace]
  congr 1
  funext piece
  cases piece with
  | kept c => rfl
  | hit text captured =>
    exact (Sign.readAll_ofText _).trans (Text.unifyBreaks_of_not_mem (hf captured))

end Pattern

namespace Component.References

open Pattern

def stripSigns (id : Text) (signs : List Sign) : List Sign :=
  let names := (defaultImport id).captures (Sign.readAll signs)
  (Text.distinct names).foldl
    (fun signs name ↦ (selfClosing name).replaceSigns (fun _ ↦ emptyExpression) signs)
    ((defaultImport id).replaceSigns (fun _ ↦ []) signs)

/-- A file with its references cut out and nothing else touched. -/
def cutOut (id stored : Text) : Text := Sign.storedAll (stripSigns id (Sign.ofText stored))

theorem not_mem_emptyExpression : '\r' ∉ emptyExpression := by decide

theorem readAll_stripSigns (id : Text) (signs : List Sign) :
    Sign.readAll (stripSigns id signs) = strip id (Sign.readAll signs) := by
  rw [stripSigns, strip, Pattern.erase,
    ← Pattern.readAll_replaceSigns (fun _ ↦ List.not_mem_nil) signs]
  generalize (defaultImport id).replaceSigns (fun _ ↦ []) signs = signs
  induction Text.distinct _ generalizing signs with
  | nil => rfl
  | cons name names ih =>
    rw [List.foldl_cons, List.foldl_cons, ih,
      Pattern.readAll_replaceSigns fun _ ↦ not_mem_emptyExpression]

/-- Where no carriage return is left, what is left of a file is what is left of its text, and only
there. -/
theorem strip_eq_cutOut_iff (id stored : Text) :
    strip id (Text.unifyBreaks stored) = cutOut id stored ↔ '\r' ∉ cutOut id stored := by
  rw [cutOut, ← Sign.readAll_ofText, ← readAll_stripSigns, eq_comm]
  exact Sign.storedAll_eq_readAll_iff _

theorem not_mem_strip {id content : Text} (h : '\r' ∉ content) : '\r' ∉ strip id content := by
  rw [← Text.unifyBreaks_of_not_mem h, ← Sign.readAll_ofText, ← readAll_stripSigns]
  exact Sign.not_mem_readAll _

theorem mem_of_takes_defaultImport {id taken rest : Text} {last : Option Char}
    (h : (defaultImport id).Takes last taken rest) : 'i' ∈ taken := by
  obtain ⟨u, _, rfl, -, v, _, rfl, -, w, more, rfl, hword, -⟩ := h
  rw [takes_literal.1 hword]
  simp

theorem mem_of_takes_selfClosing {name taken rest : Text} {last : Option Char}
    (h : (selfClosing name).Takes last taken rest) : '<' ∈ taken := by
  rcases h with ⟨u, v, rfl, hopen, -⟩ | ⟨u, v, rfl, hopen, -⟩ <;>
  · rw [takes_literal.1 hopen]
    exact List.mem_cons_self

theorem foldl_replace_eq_or_lt (names : List Text) (t : Text) :
    let u := names.foldl (fun t name ↦ (selfClosing name).replace (fun _ ↦ emptyExpression) t) t
    u = t ∨ u.count '<' < t.count '<' := by
  induction names generalizing t with
  | nil => exact .inl rfl
  | cons name names ih =>
    have htag : ∀ last taken rest, (selfClosing name).Takes last taken rest → '<' ∈ taken :=
      fun _ _ _ ↦ mem_of_takes_selfClosing
    have hcount := count_replace_add_le (f := fun _ ↦ emptyExpression) htag (fun _ ↦ by decide) t
    rw [List.foldl_cons]
    cases hcaptures : (selfClosing name).captures t with
    | nil =>
      rw [replace_eq_self hcaptures]
      exact ih t
    | cons captured more =>
      rw [hcaptures, List.length_cons] at hcount
      refine .inr ?_
      rcases ih ((selfClosing name).replace (fun _ ↦ emptyExpression) t) with h | h
      · rw [h]
        omega
      · omega

theorem strip_eq_self_iff {id content : Text} :
    strip id content = content ↔ (defaultImport id).occursIn content = false := by
  have hword : ∀ last taken rest, (defaultImport id).Takes last taken rest → 'i' ∈ taken :=
    fun _ _ _ ↦ mem_of_takes_defaultImport
  have hsome : ∀ last rest, ¬ (defaultImport id).Takes last [] rest :=
    fun last rest h ↦ List.not_mem_nil (hword last [] rest h)
  rw [← captures_eq_nil_iff hsome]
  constructor
  · intro h
    have hsublist := erase_sublist (defaultImport id) content
    rw [strip] at h
    rcases foldl_replace_eq_or_lt (Text.distinct ((defaultImport id).captures content))
        ((defaultImport id).erase content) with hsame | hless
    · -- Nothing is cut out, so there was no import.
      have hcount := count_replace_add_le (f := fun _ ↦ []) hword (fun _ ↦ List.not_mem_nil) content
      rw [← erase, ← hsame, h] at hcount
      exact List.length_eq_zero_iff.1 (by omega)
    · rw [h] at hless
      exact absurd (hsublist.count_le '<') (by omega)
  · intro h
    rw [strip, h]
    exact replace_eq_self h _

/-- The text has the place of the component in a module path, whatever stands around it. -/
def Mentions (id t : Text) : Prop :=
  ∃ slash, isSlash slash = true ∧ ("components" : Text) ++ slash :: id <:+: t

theorem mentions_of_occursIn {id t : Text} (h : (defaultImport id).occursIn t = true) :
    Mentions id t := by
  obtain ⟨front, taken, rest, rfl, htaken⟩ := (occursIn_iff _ _).1 h
  obtain ⟨opening, _, rfl, -, hpath⟩ := (@takes_chain_split _ _ _ [lineStart, padding,
    literal "import", run Text.isBlank, capture (run Text.isWord), run Text.isBlank, literal "from",
    run Text.isBlank, one isQuote] _).1 htaken
  obtain ⟨_, closing, rfl, ⟨before, _, rfl, -, word, _, rfl, hword, _, _, rfl, ⟨slash, rfl, hslash⟩,
    named, after, rfl, hnamed, -⟩, -⟩ := hpath
  refine ⟨slash, hslash, front ++ opening ++ before, after ++ closing ++ rest, ?_⟩
  rw [takes_literal.1 hword, takes_literal.1 hnamed]
  simp only [List.append_assoc, List.cons_append, List.nil_append]

theorem mentions_of_mentions_foldl {id : Text} (hid : ∀ c ∈ id, Identifier.isAllowed c = true)
    {names : List Text} {t : Text}
    (h : Mentions id
      (names.foldl (fun t name ↦ (selfClosing name).replace (fun _ ↦ emptyExpression) t) t)) :
    Mentions id t := by
  induction names generalizing t with
  | nil => exact h
  | cons name names ih =>
    obtain ⟨slash, hslash, h⟩ := ih h
    have hbrace : ∀ c : Char, Identifier.isAllowed c = false → isSlash c = false →
        c ∉ ("components" : Text) → c ∉ ("components" : Text) ++ slash :: id := by
      intro c hc hnot hword hmem
      rcases List.mem_append.1 hmem with hmem | hmem
      · exact hword hmem
      · rcases List.mem_cons.1 hmem with rfl | hmem
        · rw [hslash] at hnot
          cases hnot
        · exact Identifier.not_mem_of_isAllowed hid hc hmem
    refine ⟨slash, hslash, @infix_of_infix_replace _ _ "null" '\x7b' '\x7d'
      (hbrace _ (by decide) (by decide) (by decide))
      (hbrace _ (by decide) (by decide) (by decide)) (fun hwithin ↦ ?_) _ h⟩
    have hlength := hwithin.length_le
    have hword : ("components" : Text).length = 10 := rfl
    have hnull : ("null" : Text).length = 4 := rfl
    rw [List.length_append, hword, hnull] at hlength
    omega

/-- One pass is enough where cutting out the imports leaves no module path of the component. -/
theorem strip_strip {id content : Text} (hid : ∀ c ∈ id, Identifier.isAllowed c = true)
    (h : ¬ Mentions id ((defaultImport id).erase content)) :
    strip id (strip id content) = strip id content := by
  rw [strip_eq_self_iff, Bool.eq_false_iff]
  exact fun himport ↦ h (mentions_of_mentions_foldl hid (mentions_of_occursIn himport))

end Component.References

end CanvasLift
