import CanvasLift.Proofs.Json.Printing
import CanvasLift.Proofs.Project.Deletion
import CanvasLift.Proofs.Project.Generation
import CanvasLift.Service.Framework

namespace CanvasLift

theorem FileFault.message_ne_nil (fault : FileFault) : fault.message ≠ [] := by
  cases fault with
  | refused refusal path => exact List.append_ne_nil_of_right_ne_nil _ (List.cons_ne_nil _ _)
  | unencodable fault => exact List.append_ne_nil_of_right_ne_nil _ (by decide)
  | nullCharacter => decide

theorem Generation.Fault.message_ne_nil (fault : Generation.Fault) : fault.message ≠ [] := by
  cases fault with
  | identifier fault => exact mt WideText.ofText_eq_nil.1 fault.message_ne_nil
  | write target refusal =>
    have hreason : WideText.ofText (": " ++ refusal.reason) ≠ [] := by cases refusal <;> decide
    exact List.append_ne_nil_of_right_ne_nil _ hreason
  | file fault => exact mt WideText.ofText_eq_nil.1 fault.message_ne_nil

theorem Deletion.Fault.message_ne_nil (fault : Deletion.Fault) : fault.message ≠ [] := by
  cases fault with
  | identifier fault => exact fault.message_ne_nil
  | file fault => exact fault.message_ne_nil

namespace Api

variable {f : Framework} {host : Host} {load : Tree → Except Settings.Fault Settings}
  {s : Settings} {t u : Tree}

inductive Operation
  | generate
  | extract
  | delete

inductive Result
  | generated (m : Manifest)
  | extracted (r : Except Extraction.Fault Text)
  | deleted (report : Deletion)

namespace Result

def toJson : Result → Json
  | generated m => m.toJson
  | extracted r => Extraction.resultJson (r.mapError (·.message))
  | deleted report => report.toJson

/-- A generation or a deletion fails. That an extraction finds nothing is an answer of its own. -/
def fails : Result → Bool
  | generated m => !m.success
  | extracted _ | deleted (.done _ _) => false
  | deleted (.failed _) => true

def response (r : Result) : Response := ⟨if r.fails then 500 else 200, .value r.toJson⟩

end Result

namespace Operation

def endpoint : Operation → Endpoint
  | generate => .generate
  | extract => .extract
  | delete => .delete

def run (host : Host) (s : Settings) (given : Json) : Operation → Work Result
  | generate => do return .generated (← Generation.run host s given)
  | extract => do return .extracted (← Extraction.request host given.text? s.sourceDocument)
  | delete => do return .deleted (← Deletion.run s given)

end Operation

theorem require_text?_string {given : Option Text} {id : Text}
    (h : Identifier.require given = .ok id) :
    Identifier.require (Json.string id).text? = .ok id := by
  have htext : (Json.string id).text? = some id := by
    simp [Json.text?, Json.wideText?, WideText.toText_ofText]
  rw [htext]
  exact Identifier.require_of_require h

theorem toJson_generateResponse (s : Settings) (id : Text) (origin : Generation.Origin) :
    let m := Generation.manifest s id origin
    let r : GenerateResponse :=
      { success := true, files := some m.files, componentPath := m.componentPath,
        componentTag := m.componentTag, origin := m.origin }
    r.toJson = m.toJson := by
  cases origin <;> rfl

theorem toJson_extractResponse (r : Except Extraction.Fault Text) :
    let answer : ExtractResponse := match r with
      | .ok source => { success := true, source := some source }
      | .error fault => { success := false, error := some fault.message }
    answer.toJson = (Result.extracted r).toJson := by
  cases r <;> rfl

theorem response_failed {message : WideText} (h : message ≠ []) :
    failure 500 (if message = [] then "Generation failed" else message) =
      (Result.generated (.failure message)).response := by
  rw [if_neg h]
  rfl

theorem yields_perform_generate {given : Json} {id : Text} (host : Host) (s : Settings) (t : Tree)
    (h : Identifier.require given.text? = .ok id) :
    ∃ r u, (Operation.generate.run host s given).Yields t r u ∧
      (perform host s id .generate).Yields t r.response u := by
  -- The service hands on the sanitized id, which is sanitized once more to the same one.
  have hraw := Generation.yields_run_of_ok host s t h
  have hclean := Generation.yields_run_of_ok host s t (require_text?_string h)
  generalize Generation.outcome host s id t = r at hraw hclean
  obtain ⟨r, u⟩ := r
  refine ⟨_, u, hraw.bind (Work.yields_pure _ u), hclean.bind ?_⟩
  cases r with
  | ok origin =>
    have hresponse := toJson_generateResponse s id origin
    rw [Result.response, Result.toJson, ← hresponse]
    exact Work.yields_pure _ u
  | error fault =>
    have hresponse := response_failed fault.message_ne_nil
    change Work.Yields _ u (Result.generated (.failure fault.message)).response u
    rw [← hresponse]
    exact Work.yields_pure _ u

theorem yields_perform_extract {given : Json} {id : Text} (host : Host) (s : Settings) (t : Tree)
    (h : Identifier.require given.text? = .ok id) :
    ∃ r u, (Operation.extract.run host s given).Yields t r u ∧
      (perform host s id .extract).Yields t r.response u := by
  have hraw := Extraction.yields_request host s.sourceDocument t h
  have hclean := Extraction.yields_request host s.sourceDocument t (Identifier.require_of_require h)
  refine ⟨_, t, hraw.bind (Work.yields_pure _ t), hclean.bind ?_⟩
  rw [Result.response, ← toJson_extractResponse]
  exact Work.yields_pure _ t

theorem yields_perform_delete {given : Json} {id : Text} (host : Host) (s : Settings) (t : Tree)
    (h : Identifier.require given.text? = .ok id) :
    ∃ r u, (Operation.delete.run host s given).Yields t r u ∧
      (perform host s id .delete).Yields t r.response u := by
  obtain ⟨r, u, hr, hends⟩ := Deletion.exists_yields_remove s id t
  have hraw := Deletion.yields_run_of_ok h hr
  have hclean := Deletion.yields_run_of_ok (require_text?_string h) hr
  refine ⟨_, u, hraw.bind (Work.yields_pure _ u), hclean.bind ?_⟩
  obtain ⟨fault, rfl⟩ | ⟨deleted, updated, rfl⟩ := hends
  · dsimp only [Deletion.reported, Option.getD_some]
    rw [if_neg fault.message_ne_nil]
    exact Work.yields_pure _ u
  · exact Work.yields_pure _ u

theorem yields_perform {given : Json} {id : Text} (host : Host) (s : Settings) (t : Tree)
    (op : Operation) (h : Identifier.require given.text? = .ok id) :
    ∃ r u, (op.run host s given).Yields t r u ∧
      (perform host s id op.endpoint).Yields t r.response u := by
  cases op with
  | generate => exact yields_perform_generate host s t h
  | extract => exact yields_perform_extract host s t h
  | delete => exact yields_perform_delete host s t h

theorem yields_run_of_rejected {given : Json} {fault : Identifier.Fault} (host : Host)
    (s : Settings) (t : Tree) (op : Operation)
    (h : Identifier.require given.text? = .error fault) :
    ∃ r, (op.run host s given).Yields t r t ∧ failure 400 fault.message = ⟨400, .value r.toJson⟩ := by
  cases op with
  | generate =>
    have hrun := Generation.yields_run_of_error host s t h
    exact ⟨_, hrun.bind (Work.yields_pure _ t), rfl⟩
  | extract =>
    have hrun : (Extraction.request host given.text? s.sourceDocument).Yields t
        (.error (.identifier fault)) t := by
      rw [Extraction.request, h]
      exact Work.yields_pure _ t
    exact ⟨_, hrun.bind (Work.yields_pure _ t), rfl⟩
  | delete =>
    have hrun := Deletion.yields_run_of_error s t h
    exact ⟨_, hrun.bind (Work.yields_pure _ t), rfl⟩

theorem yields_serve {body : Bytes} {fields : List (WideText × Json)} {r : Response}
    (op : Operation) (hload : load t = .ok s)
    (hroute : f.route "POST" (some op.endpoint.path) = .ok op.endpoint)
    (hbody : f.read body = .ok (.object fields))
    (h : (answer host s op.endpoint (.object fields)).Yields t r u) :
    (serve f host load "POST" (some op.endpoint.path) body).Yields t (.ok r) u := by
  have hlook : (look load).Yields t (.ok s) t := by
    have hyields := Attempt.yields_look load t
    rwa [hload] at hyields
  have hhealth : op.endpoint ≠ .health := by cases op <;> decide
  rw [serve, hroute]
  dsimp only
  rw [call, if_neg hhealth, hbody]
  exact (Attempt.yields_pure _ t).bind (hlook.bind (Attempt.yields_lift h))

namespace Framework

theorem route_standard (depth : Nat) (op : Operation) :
    (standard depth).route "POST" (some op.endpoint.path) = .ok op.endpoint := by
  cases op <;> rfl

theorem ofBytes_eq_utf8 {a b : UInt8} (ha : a ≠ 0) (hb : b ≠ 0) (rest : Bytes) :
    Json.Encoding.ofBytes (a :: b :: rest) = .utf8 := by
  match rest with
  | [] | [_] | _ :: _ :: _ => simp [Json.Encoding.ofBytes, ha, hb]

theorem read_of_ofText {depth : Nat} {fields : List (WideText × Json)} {w : Text}
    (h : Json.ofText depth ('\x7b' :: '"' :: w) = .ok (.object fields)) :
    (standard depth).read (Utf8.encode ('\x7b' :: '"' :: w)) = .ok (.object fields) := by
  have hbytes : Utf8.encode ('\x7b' :: '"' :: w) = 0x7b :: 0x22 :: Utf8.encode w := rfl
  have htext : Json.textOfBytes? (Utf8.encode ('\x7b' :: '"' :: w)) = some ('\x7b' :: '"' :: w) := by
    rw [Json.textOfBytes?, hbytes, ofBytes_eq_utf8 (by decide) (by decide), ← hbytes,
      Json.Encoding.decode?, Utf8.decode_encode]
    rfl
  have hread : (standard depth).read = readBody depth := rfl
  rw [hread, readBody, htext, Option.map_some, h, hbytes, if_neg (List.cons_ne_nil _ _)]

end Framework

def idKey : Text := "componentId"

def requestFields (value : Json) : List (WideText × Json) := [(.ofText idKey, value)]

/-- Every value that can be written is in the body of a request: `null`, a truth value, a text without
first halves, and arrays and objects of these, one level less deep than a body may be. Numbers are left
out: a whole one of more than `Number.digitLimit` digits is in no body. -/
theorem Framework.read_requestFields {depth : Nat} {value : Json} (h : Json.Writable depth value) :
    (standard (depth + 1)).read (Utf8.encode (Json.object (requestFields value)).compact) =
      .ok (.object (requestFields value)) := by
  have hkeys : ((requestFields value).map Prod.fst).Nodup :=
    List.nodup_cons.2 ⟨List.not_mem_nil, List.nodup_nil⟩
  have hseparate : ∀ field ∈ requestFields value, Json.IsSeparate field.1 := by
    intro field hfield
    obtain rfl := List.mem_singleton.1 hfield
    exact Json.isSeparate_ofText idKey
  have hvalues : ∀ field ∈ requestFields value, Json.Writable depth field.2 := by
    intro field hfield
    obtain rfl := List.mem_singleton.1 hfield
    exact h
  obtain ⟨_, hwritten⟩ := Json.writable_object hkeys hseparate hvalues
  have hread := Json.ofText_compact hwritten
  obtain ⟨w, hw⟩ : ∃ w, (Json.object (requestFields value)).compact = '\x7b' :: '"' :: w := by
    rw [Json.compact_eq_written, Json.written, Json.writtenFields_eq_map, requestFields,
      List.map_singleton, Text.joinWith_singleton]
    exact ⟨_, rfl⟩
  rw [hw] at hread ⊢
  exact read_of_ofText hread

def statusOf (given : Json) (r : Result) : Nat :=
  match Identifier.require given.text? with
  | .error _ => 400
  | .ok _ => if r.fails then 500 else 200

theorem yields_serve_run {body : Bytes} {fields : List (WideText × Json)} (host : Host)
    (op : Operation) (hload : load t = .ok s)
    (hroute : f.route "POST" (some op.endpoint.path) = .ok op.endpoint)
    (hbody : f.read body = .ok (.object fields)) :
    let given := idIn (.object fields)
    ∃ r u, (op.run host s given).Yields t r u ∧
      (serve f host load "POST" (some op.endpoint.path) body).Yields t
        (.ok ⟨statusOf given r, .value r.toJson⟩) u ∧
      (statusOf given r = 400 → u = t) := by
  intro given
  cases hid : Identifier.require given.text? with
  | error fault =>
    obtain ⟨r, hrun, hresponse⟩ := yields_run_of_rejected host s t op hid
    refine ⟨r, t, hrun, yields_serve op hload hroute hbody ?_, fun _ ↦ rfl⟩
    rw [answer, hid, statusOf, hid, ← hresponse]
    exact Work.yields_pure _ t
  | ok id =>
    obtain ⟨r, u, hrun, hperform⟩ := yields_perform host s t op hid
    refine ⟨r, u, hrun, yields_serve op hload hroute hbody ?_, ?_⟩
    · rw [answer, hid, statusOf, hid]
      exact hperform
    · rw [statusOf, hid]
      cases r.fails <;> simp

/-- The service answers a request with what the operation itself gives for the id in it, and has the
same effect. The status tells whether the id is rejected or a generation or deletion of it fails. -/
theorem serve_eq_run {body : Bytes} {fields : List (WideText × Json)} (host : Host)
    (op : Operation) (records : List Log.Record) (hload : load t = .ok s)
    (hroute : f.route "POST" (some op.endpoint.path) = .ok op.endpoint)
    (hbody : f.read body = .ok (.object fields)) :
    let before : Workspace := ⟨t, records, none⟩
    let given := idIn (.object fields)
    let direct := (op.run host s given).run before
    let served := (serve f host load "POST" (some op.endpoint.path) body).run.run before
    ∃ status, served.1 = .ok ⟨status, .value direct.1.toJson⟩ ∧ served.2.tree = direct.2.tree ∧
      (status = 400 ↔ ∃ fault, Identifier.require given.text? = .error fault) ∧
      (status = 400 → served.2.tree = t) ∧
      (status = 500 ↔ (∃ id, Identifier.require given.text? = .ok id) ∧ direct.1.fails = true) ∧
      (status = 200 ∨ status = 400 ∨ status = 500) := by
  intro before given direct served
  obtain ⟨r, u, hrun, hserve, hsame⟩ := yields_serve_run host op hload hroute hbody
  have hvalue : direct.1 = r := hrun.value records
  have htree : direct.2.tree = u := hrun.tree records
  have hserved : served.2.tree = u := hserve.tree records
  rw [htree, hvalue, hserved]
  refine ⟨statusOf given r, hserve.value records, rfl, ?_, hsame, ?_⟩
  · rw [statusOf]
    cases Identifier.require given.text? <;> cases r.fails <;> simp
  · rw [statusOf]
    cases Identifier.require given.text? <;> cases r.fails <;> simp

def tileProject : Tree :=
  let page : Text := "\x7bel.type === 'tile' ? (\n<b/>\n) : (\n<i/>\n)\x7d\n"
  (((((Tree.empty.set ["src"] .directory).set ["src", "pages"] .directory).set
    ["src", "pages", "CanvasPage.tsx"] (.file (Utf8.encode page))).set
    ["src", "components"] .directory).set
    ["src", "components", "card.tsx"] (.file (Utf8.encode (Component.Template.fallback "card"))))

theorem serve_eq_run_tile :
    let f := Framework.standard 980
    let host : Host := .withYaml ⟨.root, []⟩ [] []
    let s := Settings.defaults ⟨.root, []⟩
    let load : Tree → Except Settings.Fault Settings := fun _ ↦ .ok s
    let id := Json.string (.ofText "tile")
    let fields := requestFields id
    let body := Utf8.encode (Json.object fields).compact
    let op := Operation.generate
    let made := (op.run host s id).run ⟨tileProject, [], none⟩
    (load tileProject = .ok s ∧ f.route "POST" (some op.endpoint.path) = .ok op.endpoint ∧
        f.read body = .ok (.object fields) ∧ made.1.fails = false ∧
        made.2.tree.get? ["src", "components", "tile.tsx"] ≠ none) ∧
      (let before : Workspace := ⟨tileProject, [], none⟩
      let given := idIn (.object fields)
      let direct := (op.run host s given).run before
      let served := (serve f host load "POST" (some op.endpoint.path) body).run.run before
      ∃ status, served.1 = .ok ⟨status, .value direct.1.toJson⟩ ∧ served.2.tree = direct.2.tree ∧
        (status = 400 ↔ ∃ fault, Identifier.require given.text? = .error fault) ∧
        (status = 400 → served.2.tree = tileProject) ∧
        (status = 500 ↔ (∃ id, Identifier.require given.text? = .ok id) ∧ direct.1.fails = true) ∧
        (status = 200 ∨ status = 400 ∨ status = 500)) := by
  intro f host s load id fields body op made
  have hload : load tileProject = .ok s := rfl
  have hroute : f.route "POST" (some op.endpoint.path) = .ok op.endpoint :=
    Framework.route_standard 980 op
  have hbody : f.read body = .ok (.object fields) :=
    Framework.read_requestFields (Json.writable_string 979 (Json.isSeparate_ofText "tile"))
  have hfails : made.1.fails = false := by decide +kernel
  have hwritten : made.2.tree.get? ["src", "components", "tile.tsx"] ≠ none := by decide +kernel
  exact ⟨⟨hload, hroute, hbody, hfails, hwritten⟩, serve_eq_run host op [] hload hroute hbody⟩

end Api

end CanvasLift
