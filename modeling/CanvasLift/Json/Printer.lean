import CanvasLift.Json

namespace CanvasLift.Json

def codeUnit (n : Nat) : Text := "\\u" ++ Text.ofHex 4 n

def codeUnits (c : Char) : Text :=
  if c.toNat < 0x10000 then codeUnit c.toNat
  else
    let n := c.toNat - 0x10000
    codeUnit (0xD800 + n / 0x400) ++ codeUnit (0xDC00 + n % 0x400)

def escapeChar (c : Char) : Text :=
  if c = '"' ∨ c = '\\' then ['\\', c]
  else if c = '\n' then "\\n"
  else if c = '\r' then "\\r"
  else if c = '\t' then "\\t"
  else if c = '\x08' then "\\b"
  else if c = '\x0c' then "\\f"
  else if 32 ≤ c.toNat ∧ c.toNat ≤ 126 then [c]
  else codeUnits c

def escape : Symbol → Text
  | .char c => escapeChar c
  | .half n => codeUnit (Symbol.half n).code

def quote (w : WideText) : Text := "\"" ++ w.flatMap escape ++ "\""

def floatText : Binary64 → Text
  | .nan => "NaN"
  | .infinity negative => if negative then "-Infinity" else "Infinity"
  | x => x.toText

mutual

def compact : Json → Text
  | null => "null"
  | bool b => if b then "true" else "false"
  | int i => Text.ofInt i
  | float x => floatText x
  | string w => quote w
  | array items => "[" ++ Text.joinWith ", " (compactItems items) ++ "]"
  | object fields => "\x7b" ++ Text.joinWith ", " (compactFields fields) ++ "\x7d"

def compactItems : List Json → List Text
  | [] => []
  | item :: rest => compact item :: compactItems rest

def compactFields : List (WideText × Json) → List Text
  | [] => []
  | (key, value) :: rest => (quote key ++ ": " ++ compact value) :: compactFields rest

end

def newline (level : Nat) : Text := '\n' :: List.replicate (2 * level) ' '

def block (level : Nat) (opening closing : Text) (items : List Text) : Text :=
  if items = [] then opening ++ closing
  else opening ++ newline (level + 1) ++ Text.joinWith ("," ++ newline (level + 1) : Text) items ++
    newline level ++ closing

mutual

def indented (level : Nat) : Json → Text
  | array items => block level "[" "]" (indentedItems (level + 1) items)
  | object fields => block level "\x7b" "\x7d" (indentedFields (level + 1) fields)
  | null => compact null
  | bool b => compact (bool b)
  | int i => compact (int i)
  | float x => compact (float x)
  | string w => compact (string w)

def indentedItems (level : Nat) : List Json → List Text
  | [] => []
  | item :: rest => indented level item :: indentedItems level rest

def indentedFields (level : Nat) : List (WideText × Json) → List Text
  | [] => []
  | (key, value) :: rest =>
    (quote key ++ ": " ++ indented level value) :: indentedFields level rest

end

def pretty (value : Json) : Text := indented 0 value

end CanvasLift.Json
