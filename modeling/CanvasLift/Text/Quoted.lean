import CanvasLift.Text.Printable

/-!
Quoted text: the form in which messages show a text so that every character of it is visible.
-/

namespace CanvasLift.Text

/-- A character that does not print, by its number in as few of two, four or eight digits as fit. -/
def numbered (c : Char) : Text :=
  if c.toNat < 0x100 then "\\x" ++ ofHex 2 c.toNat
  else if c.toNat < 0x10000 then "\\u" ++ ofHex 4 c.toNat
  else "\\U" ++ ofHex 8 c.toNat

def quotedChar (quote c : Char) : Text :=
  if c = quote ∨ c = '\\' then ['\\', c]
  else if c = '\n' then "\\n"
  else if c = '\r' then "\\r"
  else if c = '\t' then "\\t"
  else if isPrintable c then [c]
  else numbered c

/-- Single quotes stand around the text, unless it holds single quotes and no double ones. -/
def quoted (t : Text) : Text :=
  let quote := if '\'' ∈ t ∧ '"' ∉ t then '"' else '\''
  quote :: t.flatMap (quotedChar quote) ++ [quote]

end CanvasLift.Text
