import CanvasLift.Proofs.Command.Line
import CanvasLift.Proofs.Command.Remote
import CanvasLift.Proofs.Command.Run
import CanvasLift.Proofs.Service.Refusals

namespace CanvasLift.Command.Run

variable {around : Surroundings} {s : Settings} {id : Text} {service : WideText}
  {request : Client.Request}

theorem received_ending_iff (depth : Nat) (s : Settings) (reply : Client.Reply) :
    (received depth s reply).ending = .ok 0 ↔
      ∃ m, Client.generated depth s.helper.baseUrl reply = .ok m ∧ m.success = true := by
  rw [received]
  cases Client.generated depth s.helper.baseUrl reply with
  | ok m => cases h : m.success <;> simp [reportManifest, Outcome.report, Outcome.printed, h]
  | error fault => cases h : fault.isUnavailable <;> simp [Outcome.failed, Outcome.escaped, h]

/-- A refusal is a failure, of a generation or of the service's health, exactly if no object in its body
says otherwise and the reader does not give the body up; an object that says otherwise is believed, and a
run that asks for the generation ends as one that has succeeded. Without an object the status is told. -/
theorem refusal_fails_iff (depth : Nat) (service : WideText) (reason : Text) (status : Int)
    (body : Bytes) :
    let reply : Client.Reply := .refused status reason body
    (Client.Fails (Client.generated depth service reply) ↔
      ¬ Client.BodyHas depth Client.reportsSuccess body ∧ ¬ Client.GivenUp depth body) ∧
    (Client.healthy depth service reply = .ok false ↔
      ¬ Client.BodyHas depth Client.reportsHealth body ∧ ¬ Client.GivenUp depth body) ∧
    ((∃ m, Client.generated depth service reply = .ok m ∧ m.success = true) ↔
      Client.BodyHas depth Client.reportsSuccess body) ∧
    (Client.healthy depth service reply = .ok true ↔ Client.BodyHas depth Client.reportsHealth body) ∧
    ((∃ fields, Client.Delivers depth body fields) →
      Client.payload depth service reply = Client.payload depth service (.answered body)) ∧
    ((¬ ∃ fields, Client.Delivers depth body fields) → ¬ Client.GivenUp depth body →
      Client.generated depth service reply = .error (.badStatus status reason)) ∧
    ∀ around s (id : Text) request, around.depth = depth → s.helper.baseUrl = service →
      Client.generateRequest service s.helper.timeout (.string id) = .ok request →
      around.send request = reply →
      ((generateRemotely around s id).ending = .ok 0 ↔
        Client.BodyHas depth Client.reportsSuccess body) := by
  intro reply
  obtain ⟨hfails, hsucceeds⟩ := Client.generated_refused_spec depth service reason status body
  obtain ⟨hill, hwell⟩ := Client.healthy_refused_spec depth service reason status body
  refine ⟨hfails, hill, hsucceeds, hwell, ?_, ?_, ?_⟩
  · rintro ⟨fields, hbody⟩
    exact Client.payload_refused_of_delivers hbody
  · intro hnone hgiven
    obtain ⟨fields, hbody, -⟩ | ⟨-, -, h⟩ | ⟨-, hgiven', -⟩ :=
      Client.payload_refused_cases depth service reason status body
    · exact absurd ⟨fields, hbody⟩ hnone
    · rw [Client.generated, h]
      rfl
    · exact absurd hgiven' hgiven
  · intro around s id request hdepth hservice hrequest hsend
    have hending : (generateRemotely around s id).ending = (received depth s reply).ending := by
      rw [generateRemotely, hservice, hrequest, ← hsend, ← hdepth]
    rw [hending, received_ending_iff, hservice, hsucceeds]

/-- Refusals whose bodies speak of success and of health are taken at their word. -/
theorem refusal_believed :
    let service := (Settings.defaults ⟨.root, []⟩).helper.baseUrl
    let refused (fields : List (WideText × Json)) : Client.Reply :=
      .refused 500 "Internal Server Error" (Utf8.encode (Json.object fields).compact)
    let success := refused [("success", .bool true)]
    let around : Surroundings :=
      ⟨.withYaml ⟨.root, []⟩ [] [], fun _ ↦ success, 980, [], fun _ ↦ []⟩
    ¬ Client.Fails (Client.generated 980 service success) ∧
      Client.healthy 980 service (refused [("status", .string "ok")]) = .ok true ∧
      (ofWords around ["generate", "tile", "--remote"] .empty).1.ending = .ok 0 := by
  intro service refused success around
  have hsuccess : Client.generated 980 service success = .ok { success := true } := by decide +kernel
  refine ⟨?_, by decide +kernel, by decide +kernel⟩
  rw [hsuccess]
  rintro (⟨fault, h, -⟩ | ⟨m, h, hm⟩)
  · cases h
  · cases h
    cases hm

end CanvasLift.Command.Run
