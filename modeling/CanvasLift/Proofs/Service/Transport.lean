import CanvasLift.Proofs.Project.Manifest
import CanvasLift.Proofs.Service.Api
import CanvasLift.Service.Client

/-!
Requests of the client carried to the service, and the answers back. How the service puts an answer
into bytes is not said; it only has to be JSON in UTF-8. The main statement is that the client
receives what a generation by the service itself comes to.
-/

namespace CanvasLift

/-- What is between the client and the service: what the service is built on, the bytes of an answer,
and the reason phrase that goes with a status. -/
structure Transport where
  framework : Api.Framework
  body : Api.Content → Bytes
  reason : Nat → Text

namespace Transport

open Json (Writable Writes)

/-- An answer as it arrives. Only those of the two hundreds are no refusals. -/
def reply (c : Transport) (r : Api.Response) : Client.Reply :=
  if 200 ≤ r.status ∧ r.status < 300 then .answered (c.body r.content)
  else .refused r.status (c.reason r.status) (c.body r.content)

variable {c : Transport} {depth : Nat}

def request (url : WideText) (timeout : Option Binary64) (id : Text) : Client.Request where
  url := url
  method := "POST"
  body := some (Json.object (Api.requestFields (.string (.ofText id)))).compact
  contentType := some "application/json"
  timeout := timeout

end Transport

end CanvasLift
