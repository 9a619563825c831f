import CanvasLift.Text.Blank
import CanvasLift.Text.Lower
import CanvasLift.Text.Quoted
import CanvasLift.Text.Utf8

/-!
Wide text: text in which the halves of surrogate pairs may stand alone. Escapes can write such text,
and names of files can hold it, though no encoding of text can carry it.
-/

namespace CanvasLift

/-- A character, or the half of a surrogate pair whose number is `0xD800 + n`. The halves below 1024
come first in a pair, and the others second. -/
inductive Symbol
  | char (c : Char)
  | half (n : Fin 2048)
  deriving DecidableEq

namespace Symbol

def ofNat (n : Nat) : Symbol :=
  if h : 0xD800 ≤ n ∧ n < 0xE000 then half ⟨n - 0xD800, by omega⟩ else char (Char.ofNat n)

def code : Symbol → Nat
  | char c => c.toNat
  | half n => 0xD800 + n

theorem ofNat_code (s : Symbol) : ofNat s.code = s := by
  cases s with
  | char c =>
    have hvalid : c.toNat < 0xD800 ∨ 0xDFFF < c.toNat ∧ c.toNat < 0x110000 := c.valid
    rw [code, ofNat, dif_neg (by omega), Char.ofNat_toNat]
  | half n =>
    have hn := n.isLt
    rw [code, ofNat, dif_pos (by omega)]
    simp

theorem code_injective {s t : Symbol} (h : s.code = t.code) : s = t := by
  rw [← ofNat_code s, h, ofNat_code]

def isHalf : Symbol → Bool
  | char _ => false
  | half _ => true

/-- Whether a half stands for a byte from `0x80` on that is part of no character. -/
def isByte (n : Fin 2048) : Bool := 0x480 ≤ n.val && n.val < 0x500

def isBlank : Symbol → Bool
  | char c => Text.isBlank c
  | half _ => false

/-- The bytes of a symbol in the name of a file. -/
def bytes : Symbol → Bytes
  | char c => String.utf8EncodeChar c
  | half n => [UInt8.ofNat n]

def pair? (high low : Fin 2048) : Option Char :=
  if high.val < 1024 ∧ 1024 ≤ low.val then
    some (Char.ofNat (0x10000 + high.val * 1024 + (low.val - 1024)))
  else none

end Symbol

abbrev WideText := List Symbol

namespace WideText

def ofText (t : Text) : WideText := t.map .char

instance : Coe Text WideText := ⟨ofText⟩

def text? (w : WideText) : Option Text :=
  w.mapM fun
    | .char c => some c
    | .half _ => none

/-- The first half that cannot be encoded, where it stands, and how many halves follow it. -/
structure Fault where
  first : Fin 2048
  position : Nat
  more : Nat
  deriving DecidableEq

def Fault.message (f : Fault) : Text :=
  let symbols : Text :=
    if f.more = 0 then "character '\\u" ++ Text.ofHex 4 (Symbol.half f.first).code ++
      "' in position " ++ Text.ofNat f.position
    else "characters in position " ++ Text.ofNat f.position ++ "-" ++
      Text.ofNat (f.position + f.more)
  "'utf-8' codec can't encode " ++ symbols ++ ": surrogates not allowed"

def faultFrom? (carried : Fin 2048 → Bool) (position : Nat) : WideText → Option Fault
  | [] => none
  | .char _ :: rest => faultFrom? carried (position + 1) rest
  | .half n :: rest =>
    if carried n then faultFrom? carried (position + 1) rest
    else some ⟨n, position, (rest.takeWhile Symbol.isHalf).length⟩

def bytes (w : WideText) : Bytes := w.flatMap Symbol.bytes

/-- Code-point order, a shorter text before its extensions. -/
def le : WideText → WideText → Bool
  | [], _ => true
  | _ :: _, [] => false
  | c :: w, d :: v => if c = d then le w v else c.code < d.code

def endsWith (ending w : WideText) : Bool := ending.isSuffixOf w

def trimStart (w : WideText) : WideText := w.dropWhile Symbol.isBlank

def trimEnd (w : WideText) : WideText := (w.reverse.dropWhile Symbol.isBlank).reverse

def trim (w : WideText) : WideText := trimEnd (trimStart w)

def masked (w : WideText) : Text :=
  w.map fun
    | .char c => c
    | .half _ => '\ufffd'

/-- The nearest text: halves next to each other become the character that they make, and for a half
that stands alone there is the replacement character. -/
def toText : WideText → Text
  | [] => []
  | .char c :: rest => c :: toText rest
  | [.half _] => ['\ufffd']
  | .half _ :: .char c :: rest => '\ufffd' :: c :: toText rest
  | .half n :: .half m :: rest =>
    match Symbol.pair? n m with
    | some c => c :: toText rest
    | none => '\ufffd' :: toText (.half m :: rest)

def quotedSymbol (quote : Char) : Symbol → Text
  | .char c => Text.quotedChar quote c
  | .half n => "\\u" ++ Text.ofHex 4 (Symbol.half n).code

/-- Wide text in quotes. A half is shown by its number. -/
def quoted (w : WideText) : Text :=
  let quote := if .char '\'' ∈ w ∧ .char '"' ∉ w then '"' else '\''
  quote :: w.flatMap (quotedSymbol quote) ++ [quote]

/-- Applies `f` to the texts between the halves; `run` is the text before, in reverse. -/
def mapTexts (f : Text → Text) (run : Text) : WideText → WideText
  | [] => ofText (f run.reverse)
  | .char c :: rest => mapTexts f (c :: run) rest
  | .half n :: rest => ofText (f run.reverse) ++ .half n :: mapTexts f [] rest

def lower (w : WideText) : WideText := mapTexts Text.lower [] w

theorem text?_ofText (t : Text) : text? (ofText t) = some t := by
  induction t with
  | nil => rfl
  | cons c rest ih =>
    simp only [text?, ofText, List.map_cons, List.mapM_cons] at ih ⊢
    simp [ih]

theorem masked_ofText (t : Text) : masked (ofText t) = t := by
  induction t with
  | nil => rfl
  | cons c rest ih => simpa [masked, ofText] using ih

theorem toText_ofText (t : Text) : toText (ofText t) = t := by
  induction t with
  | nil => rfl
  | cons c rest ih => simpa [ofText, toText] using ih

theorem ofText_injective {t u : Text} (h : ofText t = ofText u) : t = u := by
  rw [← toText_ofText t, h, toText_ofText]

@[simp] theorem ofText_append (t u : Text) : ofText (t ++ u) = ofText t ++ ofText u :=
  List.map_append

@[simp] theorem ofText_eq_nil {t : Text} : ofText t = [] ↔ t = [] := List.map_eq_nil_iff

@[simp] theorem mem_ofText {c : Char} {t : Text} : Symbol.char c ∈ ofText t ↔ c ∈ t := by
  simp [ofText]

theorem quoted_ofText (t : Text) : quoted (ofText t) = Text.quoted t := by
  simp only [quoted, Text.quoted, mem_ofText]
  simp [ofText, List.flatMap_map, quotedSymbol]

end WideText

end CanvasLift
