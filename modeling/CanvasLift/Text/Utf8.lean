import CanvasLift.Text

/-!
The strict UTF-8 form of text. Decoding names the first offending bytes: where they start, how many
there are and what is wrong with them.
-/

namespace CanvasLift

abbrev Bytes := List UInt8

namespace Utf8

def encode (t : Text) : Bytes := t.flatMap String.utf8EncodeChar

inductive Reason
  | startByte
  | continuationByte
  | endOfData
  deriving DecidableEq

def Reason.message : Reason → Text
  | .startByte => "invalid start byte"
  | .continuationByte => "invalid continuation byte"
  | .endOfData => "unexpected end of data"

/-- The first byte of the offending ones, where it stands, and how many bytes follow it. -/
structure Fault where
  first : UInt8
  position : Nat
  more : Nat
  reason : Reason
  deriving DecidableEq

def Fault.message (f : Fault) : Text :=
  let bytes : Text :=
    if f.more = 0 then "byte 0x" ++ Text.ofHex 2 f.first.toNat ++ " in position " ++
      Text.ofNat f.position
    else "bytes in position " ++ Text.ofNat f.position ++ "-" ++ Text.ofNat (f.position + f.more)
  "'utf-8' codec can't decode " ++ bytes ++ ": " ++ f.reason.message

/-- How many bytes follow a first byte, and the range that the second one must lie in. -/
def lead (b : UInt8) : Option (Nat × Nat × Nat) :=
  let n := b.toNat
  if n < 0x80 then some (0, 0, 0)
  else if n < 0xC2 then none
  else if n < 0xE0 then some (1, 0x80, 0xBF)
  else if n = 0xE0 then some (2, 0xA0, 0xBF)
  else if n = 0xED then some (2, 0x80, 0x9F)
  else if n < 0xF0 then some (2, 0x80, 0xBF)
  else if n = 0xF0 then some (3, 0x90, 0xBF)
  else if n < 0xF4 then some (3, 0x80, 0xBF)
  else if n = 0xF4 then some (3, 0x80, 0x8F)
  else none

/-- Reads `count` more bytes into the bits `value` of a character; `read` of its bytes are read. -/
def tail (value read low high : Nat) : Nat → Bytes → Except (Nat × Reason) Nat
  | 0, _ => .ok value
  | _ + 1, [] => .error (read, .endOfData)
  | count + 1, b :: rest =>
    if low ≤ b.toNat ∧ b.toNat ≤ high then
      tail (value * 64 + b.toNat % 64) (read + 1) 0x80 0xBF count rest
    else .error (read, .continuationByte)

def head (b : UInt8) (rest : Bytes) : Except (Nat × Reason) (Char × Nat) :=
  match lead b with
  | none => .error (0, .startByte)
  | some (0, _) => .ok (Char.ofNat b.toNat, 0)
  | some (count, low, high) =>
    let bits := b.toNat % (1 <<< (6 - count))
    match tail bits 0 low high count rest with
    | .ok value => .ok (Char.ofNat value, count)
    | .error fault => .error fault

/-- Decodes from `position` on, after `skip` bytes that belong to the last of the characters
`done`. -/
def decodeFrom (position skip : Nat) (done : Text) : Bytes → Except Fault Text
  | [] => .ok done.reverse
  | b :: rest =>
    match skip with
    | skip + 1 => decodeFrom (position + 1) skip done rest
    | 0 =>
      match head b rest with
      | .ok (c, count) => decodeFrom (position + 1) count (c :: done) rest
      | .error (more, reason) => .error ⟨b, position, more, reason⟩

def decode (bytes : Bytes) : Except Fault Text := decodeFrom 0 0 [] bytes

end Utf8

end CanvasLift
