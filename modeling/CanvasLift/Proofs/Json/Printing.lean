import CanvasLift.Proofs.Json.Writing

/-!
Printers of JSON texts. Those that differ only in what they put after a comma or a colon and in how
they spell the characters of a string are one printer. The main statement is that it prints every
value that can be written in a way to write it, so that what is printed is read as the value.
-/

namespace CanvasLift

namespace Text

theorem hexValue?_concat (t : Text) (c : Char) :
    hexValue? (t ++ [c]) = (hexValue? t).bind fun n ↦ (hexDigit? c).map (16 * n + ·) := by
  simp [hexValue?, List.foldl_append]

theorem hexDigit?_digitChar {n : Nat} (h : n < 16) : hexDigit? (Nat.digitChar n) = some n := by
  have hall : ∀ n < 16, hexDigit? (Nat.digitChar n) = some n := by decide
  exact hall n h

theorem hexValue?_toDigits (n : Nat) : hexValue? (Nat.toDigits 16 n) = some n := by
  induction n using Nat.strongRecOn with
  | ind n ih =>
    by_cases h : n < 16
    · have hconcat := hexValue?_concat [] (Nat.digitChar n)
      rw [List.nil_append, hexDigit?_digitChar h] at hconcat
      rw [Nat.toDigits_of_lt_base h, hconcat]
      simp [hexValue?]
    · have hmod : n % 16 < 16 := Nat.mod_lt n (by decide)
      rw [Nat.toDigits_of_base_le (by decide) (Nat.not_lt.1 h), hexValue?_concat,
        ih (n / 16) (by omega), hexDigit?_digitChar hmod]
      simp only [Option.bind_some, Option.map_some, Option.some.injEq]
      omega

theorem hexValue?_zeros (k : Nat) (t : Text) :
    hexValue? (List.replicate k '0' ++ t) = hexValue? t := by
  induction k with
  | zero => rfl
  | succ k ih => rw [List.replicate_succ, List.cons_append, ← ih]; rfl

theorem hexValue?_ofHex (width n : Nat) : hexValue? (ofHex width n) = some n := by
  rw [ofHex, hexValue?_zeros, hexValue?_toDigits]

theorem length_ofHex_four {n : Nat} (h : n < 0x10000) : (ofHex 4 n).length = 4 := by
  have hlength := (Nat.length_toDigits_le_iff (b := 16) (k := 4) (by decide) (by decide)).2 h
  simp only [ofHex, List.length_append, List.length_replicate]
  omega

end Text

namespace Json

theorem codeUnit_eq (n : Nat) : codeUnit n = '\\' :: 'u' :: Text.ofHex 4 n := rfl

theorem letter_codeUnits (c : Char) : Letter (.char c) (codeUnits c) := by
  have hvalid := Utf8.toNat_lt_or c
  by_cases h : c.toNat < 0x10000
  · rw [codeUnits, if_pos h, codeUnit_eq]
    exact .unit rfl (Text.length_ofHex_four h) (Text.hexValue?_ofHex 4 c.toNat)
  · simp only [codeUnits, if_neg h, codeUnit_eq]
    exact .pair (Text.length_ofHex_four (by omega)) (Text.length_ofHex_four (by omega))
      (Text.hexValue?_ofHex 4 _) (Text.hexValue?_ofHex 4 _) (by omega) (by omega) (by omega)
      (by omega) (by omega)

theorem letter_escapeChar (c : Char) : Letter (.char c) (escapeChar c) := by
  rw [escapeChar]
  split
  · next h => obtain rfl | rfl := h <;> exact .short rfl
  · next h =>
    split
    · next h => subst h; exact .short rfl
    split
    · next h => subst h; exact .short rfl
    split
    · next h => subst h; exact .short rfl
    split
    · next h => subst h; exact .short rfl
    split
    · next h => subst h; exact .short rfl
    split
    · next hr => exact .plain hr.1 (fun heq ↦ h (.inl heq)) (fun heq ↦ h (.inr heq))
    · exact letter_codeUnits c

/-- No symbol of the text is a first half, which an escape after it might complete. -/
def IsSeparate (w : WideText) : Prop := ∀ s ∈ w, s.isFirst = false

theorem isSeparate_ofText (t : Text) : IsSeparate (.ofText t) := by
  intro s hs
  obtain ⟨c, -, rfl⟩ := List.mem_map.1 hs
  rfl

theorem letter_escape {s : Symbol} (h : s.isFirst = false) : Letter s (escape s) := by
  cases s with
  | char c => exact letter_escapeChar c
  | half n =>
    have hcode : (Symbol.half n).code < 0x10000 := by
      have hn := n.isLt
      rw [Symbol.code]
      omega
    exact .unit h (Text.length_ofHex_four hcode) (Text.hexValue?_ofHex 4 _)

def spellChar (c : Char) : Text := if c.toNat < 127 then escapeChar c else [c]

def spell : Symbol → Text
  | .char c => spellChar c
  | .half n => escape (.half n)

def IsSpelling (spell : Symbol → Text) : Prop := ∀ s, s.isFirst = false → Letter s (spell s)

theorem letters_flatMap {spell : Symbol → Text} (h : IsSpelling spell) {w : WideText}
    (hw : IsSeparate w) : Letters w (w.flatMap spell) := by
  induction w with
  | nil => exact .nil
  | cons s w ih =>
    obtain ⟨hs, hw⟩ := List.forall_mem_cons.1 hw
    exact .cons (h s hs) (ih hw)

theorem isSeparate_of_letters {w : WideText} {t : Text} (h : Letters w t) : IsSeparate w := by
  induction h with
  | nil => exact fun _ hs ↦ absurd hs List.not_mem_nil
  | cons hs hw ih =>
    refine List.forall_mem_cons.2 ⟨?_, ih⟩
    cases hs <;> first | rfl | assumption

section

variable (gap : Text) (spell : Symbol → Text)

def spelled (w : WideText) : Text := '"' :: (w.flatMap spell ++ ['"'])

mutual

/-- The value on one line, with `gap` after each comma and each colon. -/
def written : Json → Text
  | array items => '[' :: (Text.joinWith (',' :: gap) (writtenItems items) ++ [']'])
  | object fields => '\x7b' :: (Text.joinWith (',' :: gap) (writtenFields fields) ++ ['\x7d'])
  | string w => spelled spell w
  | null => compact null
  | bool b => compact (bool b)
  | int i => compact (int i)
  | float x => compact (float x)

def writtenItems : List Json → List Text
  | [] => []
  | item :: rest => written item :: writtenItems rest

def writtenFields : List (WideText × Json) → List Text
  | [] => []
  | (key, value) :: rest => (spelled spell key ++ ':' :: (gap ++ written value)) :: writtenFields rest

end

variable {gap spell}

theorem writtenItems_eq_map (items : List Json) :
    writtenItems gap spell items = items.map (written gap spell) := by
  induction items with
  | nil => rw [writtenItems]; rfl
  | cons item rest ih => rw [writtenItems, ih]; rfl

theorem writtenFields_eq_map (fields : List (WideText × Json)) :
    writtenFields gap spell fields =
      fields.map fun field ↦ spelled spell field.1 ++ ':' :: (gap ++ written gap spell field.2) := by
  induction fields with
  | nil => rw [writtenFields]; rfl
  | cons field rest ih => rw [writtenFields, ih]; rfl

theorem joinWith_append_head (sep front t : Text) (ts : List Text) :
    Text.joinWith sep ((front ++ t) :: ts) = front ++ Text.joinWith sep (t :: ts) := by
  cases ts with
  | nil => rw [Text.joinWith_singleton, Text.joinWith_singleton]
  | cons next ts => rw [Text.joinWith_cons, Text.joinWith_cons, List.append_assoc]

theorem joinWith_gap (gap t : Text) (ts : List Text) :
    Text.joinWith (',' :: gap) (t :: ts) = Text.joinWith [','] (t :: ts.map (gap ++ ·)) := by
  induction ts generalizing t with
  | nil => rw [List.map_nil, Text.joinWith_singleton, Text.joinWith_singleton]
  | cons next ts ih =>
    rw [Text.joinWith_cons, ih, List.map_cons, Text.joinWith_cons, joinWith_append_head]
    rfl

variable (hgap : skipSpace gap = [])

include hgap

theorem writes_array {depth : Nat} {vs : List Json}
    (h : ∀ v ∈ vs, Writes depth v (written gap spell v)) :
    Writes (depth + 1) (.array vs) (written gap spell (.array vs)) := by
  rw [written, writtenItems_eq_map]
  cases vs with
  | nil => exact @Writes.emptyArray depth [] rfl
  | cons v vs =>
    let first : Element := ⟨[], v, written gap spell v, [], rfl, rfl⟩
    let later : Json → Element := fun v ↦ ⟨gap, v, written gap spell v, [], hgap, rfl⟩
    have htext : (first :: vs.map later).map Element.padded =
        written gap spell v :: (vs.map (written gap spell)).map (gap ++ ·) := by
      simp [first, later, Element.padded, Function.comp_def]
    have hvalue : (first :: vs.map later).map Element.value = v :: vs := by
      simp [first, later, Function.comp_def]
    rw [List.map_cons, joinWith_gap, ← htext, ← hvalue]
    refine .array (List.cons_ne_nil _ _) ?_
    intro e he
    obtain rfl | he := List.mem_cons.1 he
    · exact h v List.mem_cons_self
    · obtain ⟨v', hv', rfl⟩ := List.mem_map.1 he
      exact h v' (List.mem_cons_of_mem _ hv')

variable (hspell : IsSpelling spell)

include hspell

theorem writes_object {depth : Nat} {fields : List (WideText × Json)}
    (hkeys : (fields.map Prod.fst).Nodup) (hseparate : ∀ field ∈ fields, IsSeparate field.1)
    (h : ∀ field ∈ fields, Writes depth field.2 (written gap spell field.2)) :
    Writes (depth + 1) (.object fields) (written gap spell (.object fields)) := by
  rw [written, writtenFields_eq_map]
  cases fields with
  | nil => exact @Writes.emptyObject depth [] rfl
  | cons field fields =>
    let element : WideText × Json → Element := fun field ↦
      ⟨gap, field.2, written gap spell field.2, [], hgap, rfl⟩
    have hletters : ∀ other ∈ field :: fields, Letters other.1 (other.1.flatMap spell) :=
      fun other hother ↦ letters_flatMap hspell (hseparate other hother)
    let first : Member :=
      ⟨[], field.1, _, [], element field, hletters field List.mem_cons_self, rfl, rfl⟩
    let later : { other // other ∈ fields } → Member := fun other ↦
      ⟨gap, other.1.1, _, [], element other.1, hletters other.1 (List.mem_cons_of_mem _ other.2),
        hgap, rfl⟩
    have hattach {β : Type} (f : WideText × Json → β) :
        (fields.attach.map fun other ↦ f other.1) = fields.map f := List.attach_map_val
    have htext : (first :: fields.attach.map later).map Member.padded =
        (spelled spell field.1 ++ ':' :: (gap ++ written gap spell field.2)) ::
          (fields.map fun field ↦ spelled spell field.1 ++
            ':' :: (gap ++ written gap spell field.2)).map (gap ++ ·) := by
      simpa [first, later, element, Member.padded, Element.padded, spelled, Function.comp_def] using
        hattach fun field ↦ gap ++ '"' :: (field.1.flatMap spell ++
          '"' :: ':' :: (gap ++ written gap spell field.2))
    have hfield : (first :: fields.attach.map later).map Member.field = field :: fields := by
      simpa [first, later, element, Member.field, Function.comp_def] using
        hattach id
    have hkey : (first :: fields.attach.map later).map Member.key =
        (field :: fields).map Prod.fst := by
      simpa [first, later, Function.comp_def] using hattach Prod.fst
    have helements : ∀ m ∈ first :: fields.attach.map later,
        Writes depth m.element.value m.element.text := by
      intro m hm
      obtain rfl | hm := List.mem_cons.1 hm
      · exact h field List.mem_cons_self
      · obtain ⟨other, -, rfl⟩ := List.mem_map.1 hm
        exact h other.1 (List.mem_cons_of_mem _ other.2)
    have hwrites := Writes.object (List.cons_ne_nil _ _) (hkey ▸ hkeys) helements
    rw [htext, hfield, ← joinWith_gap] at hwrites
    exact hwrites

/-- A value that can be written at all is written by the printer. -/
theorem Writes.printed {depth : Nat} {v : Json} {w : Text} (h : Writes depth v w) :
    Writes depth v (written gap spell v) := by
  -- What `w` looks like does not matter; it only shows that the keys differ and no number occurs.
  induction h with
  | null =>
    rw [written]
    exact .null
  | bool b =>
    rw [written]
    exact .bool b
  | string h =>
    rw [written]
    exact .string (letters_flatMap hspell (isSeparate_of_letters h))
  | emptyArray => exact writes_array hgap (by simp)
  | array hne h ih =>
    refine writes_array hgap ?_
    intro v hv
    obtain ⟨e, he, rfl⟩ := List.mem_map.1 hv
    exact ih e he
  | emptyObject => exact @writes_object _ _ hgap hspell _ [] List.nodup_nil (by simp) (by simp)
  | @object depth ms hne hkeys h ih =>
    refine writes_object hgap hspell ?_ ?_ ?_
    · simpa [Member.field, Function.comp_def] using hkeys
    · intro field hfield
      obtain ⟨m, hm, rfl⟩ := List.mem_map.1 hfield
      exact isSeparate_of_letters m.letters
    · intro field hfield
      obtain ⟨m, hm, rfl⟩ := List.mem_map.1 hfield
      exact ih m hm

end

mutual

theorem compact_eq_written : ∀ v, compact v = written [' '] escape v
  | .array items => by rw [compact, written, compactItems_eq_written]; rfl
  | .object fields => by rw [compact, written, compactFields_eq_written]; rfl
  | .string w => by rw [compact, written]; rfl
  | .null | .bool b | .int i | .float x => by rw [written]

theorem compactItems_eq_written : ∀ items, compactItems items = writtenItems [' '] escape items
  | [] => by rw [compactItems, writtenItems]
  | item :: rest => by
    rw [compactItems, writtenItems, compact_eq_written item, compactItems_eq_written rest]

theorem compactFields_eq_written :
    ∀ fields, compactFields fields = writtenFields [' '] escape fields
  | [] => by rw [compactFields, writtenFields]
  | (key, value) :: rest => by
    rw [compactFields, writtenFields, compact_eq_written value, compactFields_eq_written rest,
      List.append_assoc]
    rfl

end

theorem Writes.compact {depth : Nat} {v : Json} {w : Text} (h : Writes depth v w) :
    Writes depth v v.compact := by
  rw [compact_eq_written]
  exact h.printed rfl @letter_escape

theorem ofText_compact {depth : Nat} {v : Json} {w : Text} (h : Writes depth v w) :
    ofText depth v.compact = .ok v :=
  ofText_of_writes h.compact

def Writable (depth : Nat) (v : Json) : Prop := ∃ w, Writes depth v w

theorem writable_bool (depth : Nat) (b : Bool) : Writable depth (.bool b) := ⟨_, .bool b⟩

theorem writable_string (depth : Nat) {w : WideText} (h : IsSeparate w) :
    Writable depth (.string w) :=
  ⟨_, .string (letters_flatMap @letter_escape h)⟩

theorem writable_array {depth : Nat} {vs : List Json} (h : ∀ v ∈ vs, Writable depth v) :
    Writable (depth + 1) (.array vs) := by
  refine ⟨_, @writes_array [] escape rfl depth vs ?_⟩
  intro v hv
  obtain ⟨w, hw⟩ := h v hv
  exact hw.printed rfl @letter_escape

theorem writable_object {depth : Nat} {fields : List (WideText × Json)}
    (hkeys : (fields.map Prod.fst).Nodup) (hseparate : ∀ field ∈ fields, IsSeparate field.1)
    (h : ∀ field ∈ fields, Writable depth field.2) : Writable (depth + 1) (.object fields) := by
  refine ⟨_, @writes_object [] escape rfl @letter_escape depth fields hkeys hseparate ?_⟩
  intro field hfield
  obtain ⟨w, hw⟩ := h field hfield
  exact hw.printed rfl @letter_escape

end Json

end CanvasLift
