import CanvasLift.Json.Printer
import CanvasLift.Json.Reader
import CanvasLift.Proofs.Text.Parts
import CanvasLift.Proofs.Text.Utf8

/-!
JSON texts as a grammar: the ways in which a value may be written, with any white space between its
parts and any escapes in its strings. The main statement is that every such text is read as the value.
Numbers are left out, and so are strings with the first half of a surrogate pair in them, which an
escape after it may complete.
-/

namespace CanvasLift

def Symbol.isFirst : Symbol → Bool
  | char _ => false
  | half n => n.val < 1024

namespace Json

/-- The ways to write a symbol in a string. -/
inductive Letter : Symbol → Text → Prop
  | plain {c : Char} (hcontrol : 32 ≤ c.toNat) (hquote : c ≠ '"') (hslash : c ≠ '\\') :
      Letter (.char c) [c]
  | short {c e : Char} (h : simpleEscape? e = some c) : Letter (.char c) ['\\', e]
  | unit {s : Symbol} {digits : Text} (hfirst : s.isFirst = false) (hlength : digits.length = 4)
      (h : Text.hexValue? digits = some s.code) : Letter s ('\\' :: 'u' :: digits)
  | pair {c : Char} {high low : Text} {n m : Nat} (hhigh : high.length = 4) (hlow : low.length = 4)
      (hn : Text.hexValue? high = some n) (hm : Text.hexValue? low = some m)
      (hnlow : 0xD800 ≤ n) (hnhigh : n < 0xDC00) (hmlow : 0xDC00 ≤ m) (hmhigh : m < 0xE000)
      (hc : c.toNat = 0x10000 + (n - 0xD800) * 0x400 + (m - 0xDC00)) :
      Letter (.char c) ('\\' :: 'u' :: high ++ '\\' :: 'u' :: low)

inductive Letters : WideText → Text → Prop
  | nil : Letters [] []
  | cons {s : Symbol} {w : WideText} {t u : Text} (hs : Letter s t) (hw : Letters w u) :
      Letters (s :: w) (t ++ u)

theorem codeUnit?_append {digits : Text} {n : Nat} (hlength : digits.length = 4)
    (h : Text.hexValue? digits = some n) (rest : Text) : codeUnit? (digits ++ rest) = some (n, rest) := by
  obtain ⟨a, b, c, d, rfl⟩ : ∃ a b c d, digits = [a, b, c, d] := by
    match digits, hlength with
    | [a, b, c, d], _ => exact ⟨a, b, c, d, rfl⟩
  simp [codeUnit?, h]

theorem escaped?_short {c e : Char} (h : simpleEscape? e = some c) (rest : Text) :
    escaped? (e :: rest) = some (.char c, rest) := by
  have hne : e ≠ 'u' := by
    rintro rfl
    cases h
  rw [escaped?, h]
  · rfl
  · exact hne

theorem not_first_code {s : Symbol} (h : s.isFirst = false) : ¬ (0xD800 ≤ s.code ∧ s.code < 0xDC00) := by
  cases s with
  | char c =>
    have hvalid := Utf8.toNat_lt_or c
    rw [Symbol.code]
    omega
  | half n =>
    have hn : ¬ n.val < 1024 := of_decide_eq_false h
    rw [Symbol.code]
    omega

theorem escaped?_unit {s : Symbol} {digits : Text} (hfirst : s.isFirst = false)
    (hlength : digits.length = 4) (h : Text.hexValue? digits = some s.code) (rest : Text) :
    escaped? ('u' :: (digits ++ rest)) = some (s, rest) := by
  simp only [escaped?, codeUnit?_append hlength h, Option.bind_eq_bind, Option.bind_some]
  rw [if_neg (not_first_code hfirst), Symbol.ofNat_code]
  rfl

theorem escaped?_pair {c : Char} {high low : Text} {n m : Nat} (hhigh : high.length = 4)
    (hlow : low.length = 4) (hn : Text.hexValue? high = some n) (hm : Text.hexValue? low = some m)
    (hnlow : 0xD800 ≤ n) (hnhigh : n < 0xDC00) (hmlow : 0xDC00 ≤ m) (hmhigh : m < 0xE000)
    (hc : c.toNat = 0x10000 + (n - 0xD800) * 0x400 + (m - 0xDC00)) (rest : Text) :
    escaped? ('u' :: (high ++ '\\' :: 'u' :: (low ++ rest))) = some (.char c, rest) := by
  have hread : lowSurrogate? ('\\' :: 'u' :: (low ++ rest)) = some (m, rest) := by
    simp [lowSurrogate?, codeUnit?_append hlow hm, hmlow, hmhigh]
  simp only [escaped?, codeUnit?_append hhigh hn, Option.bind_eq_bind, Option.bind_some]
  rw [if_pos ⟨hnlow, hnhigh⟩, hread]
  have hchar := Symbol.ofNat_code (.char c)
  rw [Symbol.code, hc] at hchar
  dsimp only
  rw [hchar]
  rfl

theorem stringRest?_letter {s : Symbol} {t : Text} (h : Letter s t) (fuel : Nat) (done : WideText)
    (rest : Text) : stringRest? (fuel + 1) done (t ++ rest) = stringRest? fuel (s :: done) rest := by
  cases h with
  | @plain c hcontrol hquote hslash =>
    have hlow : ¬ c.toNat < 32 := Nat.not_lt.2 hcontrol
    rw [List.singleton_append, stringRest?]
    · rw [if_neg hlow]
    · exact hquote
    · exact hslash
  | short h =>
    simp only [List.cons_append, List.nil_append, stringRest?, escaped?_short h]
  | unit hfirst hlength h =>
    simp only [List.cons_append, stringRest?, escaped?_unit hfirst hlength h]
  | pair hhigh hlow hn hm hnlow hnhigh hmlow hmhigh hc =>
    simp only [List.cons_append, List.append_assoc, stringRest?,
      escaped?_pair hhigh hlow hn hm hnlow hnhigh hmlow hmhigh hc]

theorem Letter.length_pos {s : Symbol} {t : Text} (h : Letter s t) : 0 < t.length := by
  cases h <;> simp

theorem stringRest?_letters {w : WideText} {t : Text} (h : Letters w t) (rest : Text) :
    ∀ {fuel : Nat} {done : WideText}, t.length < fuel →
      stringRest? fuel done (t ++ '"' :: rest) = some (done.reverse ++ w, rest) := by
  induction h with
  | nil =>
    intro fuel done hfuel
    obtain ⟨fuel, rfl⟩ := Nat.exists_eq_add_of_lt hfuel
    simp [stringRest?]
  | cons hs hw ih =>
    intro fuel done hfuel
    have hpos := hs.length_pos
    rw [List.length_append] at hfuel
    obtain ⟨fuel, rfl⟩ : ∃ n, fuel = n + 1 := ⟨fuel - 1, by omega⟩
    rw [List.append_assoc, stringRest?_letter hs, ih (by omega)]
    simp

structure Element where
  before : Text
  value : Json
  text : Text
  after : Text
  blank_before : skipSpace before = []
  blank_after : skipSpace after = []

def Element.padded (e : Element) : Text := e.before ++ (e.text ++ e.after)

structure Member where
  before : Text
  key : WideText
  keyText : Text
  gap : Text
  element : Element
  letters : Letters key keyText
  blank_before : skipSpace before = []
  blank_gap : skipSpace gap = []

namespace Member

def padded (m : Member) : Text :=
  m.before ++ '"' :: (m.keyText ++ '"' :: (m.gap ++ ':' :: m.element.padded))

def field (m : Member) : WideText × Json := (m.key, m.element.value)

end Member

/-- The ways to write a value in which at most `depth` arrays and objects stand inside each other. -/
inductive Writes : (depth : Nat) → Json → Text → Prop
  | null {depth : Nat} : Writes depth .null "null"
  | bool {depth : Nat} (b : Bool) : Writes depth (.bool b) (if b then "true" else "false")
  | string {depth : Nat} {w : WideText} {t : Text} (h : Letters w t) :
      Writes depth (.string w) ('"' :: (t ++ ['"']))
  | emptyArray {depth : Nat} {gap : Text} (hgap : skipSpace gap = []) :
      Writes (depth + 1) (.array []) ('[' :: (gap ++ [']']))
  | array {depth : Nat} {es : List Element} (hne : es ≠ [])
      (h : ∀ e ∈ es, Writes depth e.value e.text) :
      Writes (depth + 1) (.array (es.map Element.value))
        ('[' :: (Text.joinWith [','] (es.map Element.padded) ++ [']']))
  | emptyObject {depth : Nat} {gap : Text} (hgap : skipSpace gap = []) :
      Writes (depth + 1) (.object []) ('\x7b' :: (gap ++ ['\x7d']))
  | object {depth : Nat} {ms : List Member} (hne : ms ≠ []) (hkeys : (ms.map Member.key).Nodup)
      (h : ∀ m ∈ ms, Writes depth m.element.value m.element.text) :
      Writes (depth + 1) (.object (ms.map Member.field))
        ('\x7b' :: (Text.joinWith [','] (ms.map Member.padded) ++ ['\x7d']))

theorem skipSpace_append {gap : Text} (h : skipSpace gap = []) (t : Text) :
    skipSpace (gap ++ t) = skipSpace t := by
  unfold skipSpace at h ⊢
  simp [List.dropWhile_append, h]

theorem Writes.exists_head {depth : Nat} {v : Json} {w : Text} (h : Writes depth v w) :
    ∃ c rest, w = c :: rest ∧ c ∈ ['n', 't', 'f', '"', '[', '\x7b'] := by
  cases h with
  | null => exact ⟨'n', _, rfl, by decide⟩
  | bool b => cases b with
    | false => exact ⟨'f', _, rfl, by decide⟩
    | true => exact ⟨'t', _, rfl, by decide⟩
  | string h => exact ⟨_, _, rfl, by decide⟩
  | emptyArray hgap => exact ⟨_, _, rfl, by decide⟩
  | array hne h => exact ⟨_, _, rfl, by decide⟩
  | emptyObject hgap => exact ⟨_, _, rfl, by decide⟩
  | object hne hkeys h => exact ⟨_, _, rfl, by decide⟩

/-- What the reader makes of a text that it is to take for a value, whatever follows. -/
def IsRead (depth : Nat) (v : Json) (w : Text) : Prop :=
  ∀ fuel rest, w.length < fuel → value fuel depth (w ++ rest) = .ok (v, rest)

theorem isRead_null (depth : Nat) : IsRead depth .null "null" := by
  intro fuel rest hfuel
  obtain ⟨fuel, rfl⟩ : ∃ n, fuel = n + 1 := ⟨fuel - 1, by omega⟩
  rfl

theorem isRead_bool (depth : Nat) (b : Bool) :
    IsRead depth (.bool b) (if b then "true" else "false") := by
  intro fuel rest hfuel
  obtain ⟨fuel, rfl⟩ : ∃ n, fuel = n + 1 := ⟨fuel - 1, by omega⟩
  cases b <;> rfl

theorem isRead_string (depth : Nat) {w : WideText} {t : Text} (h : Letters w t) :
    IsRead depth (.string w) ('"' :: (t ++ ['"'])) := by
  intro fuel rest hfuel
  simp only [List.length_cons, List.length_append, List.length_nil] at hfuel
  obtain ⟨fuel, rfl⟩ : ∃ n, fuel = n + 1 := ⟨fuel - 1, by omega⟩
  simp only [List.cons_append, List.append_assoc, List.nil_append, value]
  rw [stringRest?_letters h rest (by omega)]
  rfl

theorem isRead_emptyArray (depth : Nat) {gap : Text} (hgap : skipSpace gap = []) :
    IsRead (depth + 1) (.array []) ('[' :: (gap ++ [']'])) := by
  intro fuel rest hfuel
  obtain ⟨fuel, rfl⟩ : ∃ n, fuel = n + 1 := ⟨fuel - 1, by omega⟩
  simp only [List.cons_append, List.append_assoc, List.nil_append, value]
  rw [skipSpace_append hgap]
  rfl

theorem isRead_emptyObject (depth : Nat) {gap : Text} (hgap : skipSpace gap = []) :
    IsRead (depth + 1) (.object []) ('\x7b' :: (gap ++ ['\x7d'])) := by
  intro fuel rest hfuel
  obtain ⟨fuel, rfl⟩ : ∃ n, fuel = n + 1 := ⟨fuel - 1, by omega⟩
  simp only [List.cons_append, List.append_assoc, List.nil_append, value]
  rw [skipSpace_append hgap]
  rfl

theorem skipSpace_writes {depth : Nat} {v : Json} {w : Text} (h : Writes depth v w) (rest : Text) :
    skipSpace (w ++ rest) = w ++ rest := by
  obtain ⟨c, w, rfl, hc⟩ := h.exists_head
  have hspace : ∀ c ∈ ['n', 't', 'f', '"', '[', '\x7b'],
      ¬ (c = ' ' || c = '\t' || c = '\n' || c = '\r') = true := by simp
  exact List.dropWhile_cons_of_neg (hspace c hc)

theorem value_element {depth fuel : Nat} {e : Element} (h : Writes depth e.value e.text)
    (hread : IsRead depth e.value e.text) (hfuel : e.text.length < fuel) (rest : Text) :
    value fuel depth (skipSpace (e.padded ++ rest)) = .ok (e.value, e.after ++ rest) := by
  rw [Element.padded, List.append_assoc, List.append_assoc, skipSpace_append e.blank_before,
    skipSpace_writes h, hread fuel _ hfuel]

theorem items_element {depth fuel : Nat} {e : Element} (done : List Json)
    (h : Writes depth e.value e.text) (hread : IsRead depth e.value e.text)
    (hfuel : e.padded.length < fuel) (tail : Text) :
    items (fuel + 1) depth done (skipSpace (e.padded ++ tail)) =
      match skipSpace tail with
      | ',' :: rest => items fuel depth (e.value :: done) (skipSpace rest)
      | ']' :: rest => .ok (.array (e.value :: done).reverse, rest)
      | _ => .error .malformed := by
  simp only [Element.padded, List.length_append] at hfuel
  rewrite [← skipSpace_append e.blank_after tail, items, value_element h hread (by omega)]
  rfl

theorem items_elements {depth : Nat} {es : List Element} (hne : es ≠ [])
    (h : ∀ e ∈ es, Writes depth e.value e.text ∧ IsRead depth e.value e.text) (rest : Text) :
    ∀ (fuel : Nat) (done : List Json),
      (Text.joinWith [','] (es.map Element.padded)).length + 1 < fuel →
      items fuel depth done (skipSpace (Text.joinWith [','] (es.map Element.padded) ++ ']' :: rest)) =
        .ok (.array (done.reverse ++ es.map Element.value), rest) := by
  -- Fuel and items so far stay free: both change from one element to the next.
  induction es with
  | nil => exact absurd rfl hne
  | cons e es ih =>
    intro fuel done hfuel
    obtain ⟨fuel, rfl⟩ : ∃ n, fuel = n + 1 := ⟨fuel - 1, by omega⟩
    obtain ⟨hwrites, hread⟩ := h e List.mem_cons_self
    cases es with
    | nil =>
      rw [List.map_singleton, Text.joinWith_singleton] at hfuel ⊢
      rw [items_element done hwrites hread (by omega)]
      simp [skipSpace]
    | cons e' es =>
      rw [List.map_cons, List.map_cons, Text.joinWith_cons, ← List.map_cons] at hfuel ⊢
      simp only [List.length_append, List.length_singleton] at hfuel
      have htail := ih (List.cons_ne_nil _ _) (fun e hmem ↦ h e (List.mem_cons_of_mem _ hmem)) fuel
        (e.value :: done) (by omega)
      rw [List.append_assoc, items_element done hwrites hread (by omega)]
      simpa [skipSpace] using htail

theorem setField_of_new {key : WideText} {fields : List (WideText × Json)} (value : Json)
    (h : ∀ field ∈ fields, field.1 ≠ key) : setField key value fields = fields ++ [(key, value)] := by
  induction fields with
  | nil => rfl
  | cons field rest ih =>
    have hne : field.1 ≠ key := h field List.mem_cons_self
    rw [setField, if_neg hne, ih fun other hmem ↦ h other (List.mem_cons_of_mem _ hmem)]
    rfl

theorem fields_member {depth fuel : Nat} {m : Member} {done : List (WideText × Json)}
    (h : Writes depth m.element.value m.element.text)
    (hread : IsRead depth m.element.value m.element.text)
    (hnew : ∀ field ∈ done, field.1 ≠ m.key) (hfuel : m.padded.length < fuel)
    (tail : Text) :
    fields (fuel + 1) depth done (skipSpace (m.padded ++ tail)) =
      match skipSpace tail with
      | ',' :: rest => fields fuel depth (done ++ [m.field]) (skipSpace rest)
      | '\x7d' :: rest => .ok (.object (done ++ [m.field]), rest)
      | _ => .error .malformed := by
  have hquote (t : Text) : skipSpace ('"' :: t) = '"' :: t := rfl
  have hcolon (t : Text) : skipSpace (':' :: t) = ':' :: t := rfl
  simp only [Member.padded, Element.padded, List.length_append, List.length_cons] at hfuel
  have hfuel' : m.element.text.length < fuel := by omega
  have hvalue := value_element h hread hfuel' tail
  have hkey : stringRest? fuel [] (m.keyText ++ '"' :: (m.gap ++ ':' :: (m.element.padded ++ tail))) =
      some (m.key, m.gap ++ ':' :: (m.element.padded ++ tail)) :=
    stringRest?_letters m.letters _ (by omega)
  simp only [Member.padded, List.append_assoc, List.cons_append]
  rw [skipSpace_append m.blank_before, hquote, fields, hkey]
  dsimp only
  rw [skipSpace_append m.blank_gap, hcolon]
  simp only [hvalue]
  rw [skipSpace_append m.element.blank_after, setField_of_new _ hnew]
  rfl

theorem fields_members {depth : Nat} {ms : List Member} (hne : ms ≠ [])
    (hkeys : (ms.map Member.key).Nodup)
    (h : ∀ m ∈ ms, Writes depth m.element.value m.element.text ∧
      IsRead depth m.element.value m.element.text) (rest : Text) :
    ∀ (fuel : Nat) (done : List (WideText × Json)),
      (∀ field ∈ done, ∀ m ∈ ms, field.1 ≠ m.key) →
      (Text.joinWith [','] (ms.map Member.padded)).length + 1 < fuel →
      fields fuel depth done
          (skipSpace (Text.joinWith [','] (ms.map Member.padded) ++ '\x7d' :: rest)) =
        .ok (.object (done ++ ms.map Member.field), rest) := by
  induction ms with
  | nil => exact absurd rfl hne
  | cons m ms ih =>
    intro fuel done hnew hfuel
    obtain ⟨fuel, rfl⟩ : ∃ n, fuel = n + 1 := ⟨fuel - 1, by omega⟩
    obtain ⟨hwrites, hread⟩ := h m List.mem_cons_self
    have hfirst := fun field hmem ↦ hnew field hmem m List.mem_cons_self
    cases ms with
    | nil =>
      rw [List.map_singleton, Text.joinWith_singleton] at hfuel ⊢
      rw [fields_member hwrites hread hfirst (by omega)]
      simp [skipSpace]
    | cons m' ms =>
      rw [List.map_cons, List.map_cons, Text.joinWith_cons, ← List.map_cons] at hfuel ⊢
      simp only [List.length_append, List.length_singleton] at hfuel
      rw [List.map_cons, List.nodup_cons] at hkeys
      have hlater : ∀ field ∈ done ++ [m.field], ∀ other ∈ m' :: ms,
          field.1 ≠ other.key := by
        intro field hfield other hother
        obtain hfield | hfield := List.mem_append.1 hfield
        · exact hnew field hfield other (List.mem_cons_of_mem _ hother)
        · obtain rfl := List.mem_singleton.1 hfield
          intro heq
          have hkey : m.key = other.key := heq
          exact hkeys.1 (hkey ▸ List.mem_map_of_mem hother)
      have htail := ih (List.cons_ne_nil _ _) hkeys.2
        (fun m hmem ↦ h m (List.mem_cons_of_mem _ hmem)) fuel (done ++ [m.field]) hlater (by omega)
      rw [List.append_assoc, fields_member hwrites hread hfirst (by omega)]
      simpa [skipSpace] using htail

theorem isRead_array {depth : Nat} {es : List Element} (hne : es ≠ [])
    (h : ∀ e ∈ es, Writes depth e.value e.text ∧ IsRead depth e.value e.text) :
    IsRead (depth + 1) (.array (es.map Element.value))
      ('[' :: (Text.joinWith [','] (es.map Element.padded) ++ [']'])) := by
  intro fuel rest hfuel
  simp only [List.length_cons, List.length_append, List.length_nil] at hfuel
  obtain ⟨fuel, rfl⟩ : ∃ n, fuel = n + 1 := ⟨fuel - 1, by omega⟩
  have hitems := items_elements hne h rest fuel [] (by omega)
  obtain ⟨c, tail, htext, hc⟩ : ∃ c tail,
      skipSpace (Text.joinWith [','] (es.map Element.padded) ++ ']' :: rest) = c :: tail ∧ c ≠ ']' := by
    obtain ⟨e, es, rfl⟩ := List.exists_cons_of_ne_nil hne
    obtain ⟨tail, htail⟩ := Text.exists_joinWith_cons [','] e.padded (es.map Element.padded)
    obtain ⟨hwrites, -⟩ := h e List.mem_cons_self
    obtain ⟨c, front, hfront, hc⟩ := hwrites.exists_head
    have hbracket : ∀ c ∈ ['n', 't', 'f', '"', '[', '\x7b'], c ≠ ']' := by simp
    refine ⟨c, front ++ (e.after ++ (tail ++ ']' :: rest)), ?_, hbracket c hc⟩
    rw [List.map_cons, htail, Element.padded, List.append_assoc, List.append_assoc,
      skipSpace_append e.blank_before, List.append_assoc, skipSpace_writes hwrites, hfront]
    rfl
  rw [htext] at hitems
  simp only [List.cons_append, List.append_assoc, List.nil_append, value, htext]
  split
  · next heq => cases heq
  · next heq _ => exact absurd (List.cons.inj heq).1 hc
  · next heq _ =>
    obtain rfl := Nat.succ.inj heq
    exact hitems

theorem isRead_object {depth : Nat} {ms : List Member} (hne : ms ≠ [])
    (hkeys : (ms.map Member.key).Nodup)
    (h : ∀ m ∈ ms, Writes depth m.element.value m.element.text ∧
      IsRead depth m.element.value m.element.text) :
    IsRead (depth + 1) (.object (ms.map Member.field))
      ('\x7b' :: (Text.joinWith [','] (ms.map Member.padded) ++ ['\x7d'])) := by
  intro fuel rest hfuel
  simp only [List.length_cons, List.length_append, List.length_nil] at hfuel
  obtain ⟨fuel, rfl⟩ : ∃ n, fuel = n + 1 := ⟨fuel - 1, by omega⟩
  have hfields := fields_members hne hkeys h rest fuel [] (by simp) (by omega)
  obtain ⟨tail, htext⟩ : ∃ tail,
      skipSpace (Text.joinWith [','] (ms.map Member.padded) ++ '\x7d' :: rest) = '"' :: tail := by
    obtain ⟨m, ms, rfl⟩ := List.exists_cons_of_ne_nil hne
    obtain ⟨tail, htail⟩ := Text.exists_joinWith_cons [','] m.padded (ms.map Member.padded)
    rw [List.map_cons, htail, Member.padded, List.append_assoc, List.append_assoc,
      skipSpace_append m.blank_before]
    exact ⟨_, rfl⟩
  rw [htext] at hfields
  simp only [List.cons_append, List.append_assoc, List.nil_append, value, htext]
  exact hfields

theorem Writes.isRead {depth : Nat} {v : Json} {w : Text} (h : Writes depth v w) :
    IsRead depth v w := by
  -- By the way in which the value is written: one case for each rule of the grammar.
  induction h with
  | null => exact isRead_null _
  | bool b => exact isRead_bool _ b
  | string h => exact isRead_string _ h
  | emptyArray hgap => exact isRead_emptyArray _ hgap
  | array hne h ih => exact isRead_array hne fun e hmem ↦ ⟨h e hmem, ih e hmem⟩
  | emptyObject hgap => exact isRead_emptyObject _ hgap
  | object hne hkeys h ih => exact isRead_object hne hkeys fun m hmem ↦ ⟨h m hmem, ih m hmem⟩

theorem ofText_of_writes {depth : Nat} {v : Json} {w : Text} (h : Writes depth v w) :
    ofText depth w = .ok v := by
  have hread := h.isRead (2 * w.length + 2) [] (by omega)
  have hstart := skipSpace_writes h []
  rw [List.append_nil] at hread hstart
  rw [ofText, hstart, hread]
  rfl

end Json

end CanvasLift
