import CanvasLift.Text.Utf8

/-!
The encodings of JSON texts. A JSON text starts with ASCII characters, so that the zeros among its
first bytes tell the encoding.
-/

namespace CanvasLift.Json

inductive Encoding
  | utf8
  | utf16 (bigEndian : Bool)
  | utf32 (bigEndian : Bool)
  deriving DecidableEq

namespace Encoding

def ofBytes : Bytes → Encoding
  | a :: b :: c :: d :: _ =>
    if a = 0 then if b = 0 then utf32 true else utf16 true
    else if b = 0 then if c = 0 ∧ d = 0 then utf32 false else utf16 false
    else utf8
  | [a, b] => if a = 0 then utf16 true else if b = 0 then utf16 false else utf8
  | _ => utf8

def pairs? (bigEndian : Bool) : Bytes → Option (List Nat)
  | [] => some []
  | [_] => none
  | a :: b :: rest =>
    let n := if bigEndian then 256 * a.toNat + b.toNat else 256 * b.toNat + a.toNat
    (pairs? bigEndian rest).map (n :: ·)

def joined? (bigEndian : Bool) : List Nat → Option (List Nat)
  | [] => some []
  | [_] => none
  | a :: b :: rest =>
    let n := if bigEndian then 65536 * a + b else 65536 * b + a
    (joined? bigEndian rest).map (n :: ·)

/-- The text of UTF-16 code units. A surrogate that stands alone has no character of its own. -/
def ofUnits : List Nat → Text
  | [] => []
  | [n] => [if 0xD800 ≤ n ∧ n < 0xE000 then '\ufffd' else Char.ofNat n]
  | n :: m :: rest =>
    if 0xD800 ≤ n ∧ n < 0xDC00 ∧ 0xDC00 ≤ m ∧ m < 0xE000 then
      Char.ofNat (0x10000 + (n - 0xD800) * 0x400 + (m - 0xDC00)) :: ofUnits rest
    else (if 0xD800 ≤ n ∧ n < 0xE000 then '\ufffd' else Char.ofNat n) :: ofUnits (m :: rest)

def ofCodePoint? (n : Nat) : Option Char :=
  if 0x10FFFF < n then none
  else some (if 0xD800 ≤ n ∧ n < 0xE000 then '\ufffd' else Char.ofNat n)

/-- The text of bytes in an encoding. A byte order mark in front of UTF-8 is no part of it. -/
def decode? (bytes : Bytes) : Encoding → Option Text
  | utf8 =>
    match Utf8.decode bytes with
    | .ok ('\ufeff' :: t) => some t
    | .ok t => some t
    | .error _ => none
  | utf16 bigEndian => (pairs? bigEndian bytes).map ofUnits
  | utf32 bigEndian => do (← joined? bigEndian (← pairs? bigEndian bytes)).mapM ofCodePoint?

end Encoding

def textOfBytes? (bytes : Bytes) : Option Text := (Encoding.ofBytes bytes).decode? bytes

end CanvasLift.Json
