import CanvasLift.Proofs.Json.Limits
import CanvasLift.Proofs.Text.Utf8
import CanvasLift.Service.Client

namespace CanvasLift

def Json.GivenUp (depth : Nat) (t : Text) : Prop :=
  ∃ fault, ofText depth t = .error fault ∧ fault ≠ .malformed

namespace Client

variable {depth : Nat} {service : WideText} {body : Bytes} {reply : Reply} {α β : Type}

def Reply.body? : Reply → Option Bytes
  | .answered body => some body
  | .refused _ _ body => some body
  | .unreachable _ => none
  | .timedOut _ => none

def IsAnswer : Except Fault α → Prop
  | .ok _ => True
  | .error fault => fault.isUnavailable = true

theorem isAnswer_decode_encode_iff (depth : Nat) (t : Text) :
    IsAnswer (decode depth (Utf8.encode t)) ↔ ¬ Json.GivenUp depth t := by
  rw [decode, Utf8.decode_encode, Json.GivenUp]
  dsimp only
  split
  · next h => simp [h, IsAnswer]
  · next h => simp [h, IsAnswer]
  · next h => simp [h, IsAnswer]
  · next h => simp [h, IsAnswer, Fault.isUnavailable]
  · next h => simp [h, IsAnswer, Fault.isUnavailable]

theorem isAnswer_decode_iff (depth : Nat) (body : Bytes) :
    IsAnswer (decode depth body) ↔ ¬ ∃ t, body = Utf8.encode t ∧ Json.GivenUp depth t := by
  cases hread : Utf8.decode body with
  | error fault =>
    rw [decode, hread]
    refine iff_of_true trivial ?_
    rintro ⟨t, ht, -⟩
    exact Utf8.ne_encode_of_decode hread t ht
  | ok t =>
    obtain rfl := Utf8.encode_of_decode hread
    rw [isAnswer_decode_encode_iff]
    apply not_congr
    constructor
    · exact fun ht ↦ ⟨t, rfl, ht⟩
    · rintro ⟨u, heq, hu⟩
      rwa [Utf8.encode_injective heq]

end Client

end CanvasLift
