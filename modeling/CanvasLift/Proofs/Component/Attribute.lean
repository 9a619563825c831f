import CanvasLift.Proofs.Component.SelfClosing

namespace CanvasLift

inductive Attribute
  | bare (name : Text)
  | quoted (name value : Text)
  | braced (name expression : Text)

namespace Attribute

def name : Attribute → Text
  | bare name | quoted name _ | braced name _ => name

def value : Attribute → Text
  | bare _ => []
  | quoted _ value => value
  | braced _ expression => expression

def text : Attribute → Text
  | bare name => name
  | quoted name value => name ++ '=' :: '"' :: (value ++ ['"'])
  | braced name expression => name ++ '=' :: '\x7b' :: (expression ++ ['\x7d'])

def isNameChar (c : Char) : Bool :=
  !Text.isBlank c && !(['"', '\'', '=', '/', '<', '>', '\x7b', '\x7d'].contains c)

/-- A name, and a value that the first quote or brace after it ends. -/
structure Simple (a : Attribute) : Prop where
  name_ne_nil : a.name ≠ []
  isNameChar_of_mem : ∀ c ∈ a.name, isNameChar c = true
  ends : match a with
    | bare _ => True
    | quoted _ value => '"' ∉ value
    | braced _ expression => '\x7b' ∉ expression ∧ '\x7d' ∉ expression

theorem Simple.slash_mem_text_iff {a : Attribute} (h : a.Simple) : '/' ∈ a.text ↔ '/' ∈ a.value := by
  have hname : '/' ∉ a.name := by
    intro hmem
    have hchar := h.isNameChar_of_mem '/' hmem
    revert hchar
    decide
  cases a <;> simp_all [name, text, value]

end Attribute

/-- What stands between the name of a self-closing element and the end of its tag. -/
structure Element where
  attributes : List (Text × Attribute)
  closing : Text
  blanks : ∀ p ∈ attributes, p.1 ≠ [] ∧ ∀ c ∈ p.1, Text.isBlank c = true
  simple : ∀ p ∈ attributes, p.2.Simple
  closing_blank : ∀ c ∈ closing, Text.isBlank c = true

namespace Element

open Component.References

def inner (element : Element) : Text :=
  (element.attributes.flatMap fun p ↦ p.1 ++ p.2.text) ++ element.closing

def text (element : Element) (name : Text) : Text := opening name element.inner ++ ['/', '>']

theorem startsBlank_inner (element : Element) : StartsBlank element.inner := by
  obtain ⟨attributes, closing, blanks, -, hclosing⟩ := element
  rw [inner]
  cases attributes with
  | nil => exact fun c hc ↦ hclosing c (List.mem_of_head? hc)
  | cons p attributes =>
    obtain ⟨hne, hblank⟩ := blanks p List.mem_cons_self
    obtain ⟨b, more, hp⟩ := List.exists_cons_of_ne_nil hne
    rw [hp] at hblank
    simpa [StartsBlank, hp] using hblank b List.mem_cons_self

theorem slash_mem_inner_iff (element : Element) :
    '/' ∈ element.inner ↔ ∃ p ∈ element.attributes, '/' ∈ p.2.value := by
  have hblank : ∀ u : Text, (∀ c ∈ u, Text.isBlank c = true) → '/' ∉ u :=
    fun u hu hmem ↦ absurd (hu '/' hmem) (by decide)
  rw [inner, List.mem_append, List.mem_flatMap]
  constructor
  · rintro (⟨p, hp, hmem⟩ | hmem)
    · rcases List.mem_append.1 hmem with hmem | hmem
      · exact absurd hmem (hblank p.1 (element.blanks p hp).2)
      · exact ⟨p, hp, (element.simple p hp).slash_mem_text_iff.1 hmem⟩
    · exact absurd hmem (hblank _ element.closing_blank)
  · rintro ⟨p, hp, hmem⟩
    exact .inl ⟨p, hp, List.mem_append_right _ ((element.simple p hp).slash_mem_text_iff.2 hmem)⟩

end Element

end CanvasLift
