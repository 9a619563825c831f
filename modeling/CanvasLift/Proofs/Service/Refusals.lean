import CanvasLift.Proofs.Service.Replies

/-!
Replies that refuse a request. The main statement is that an object in the body of a refusal is taken for
an answer: what the client makes of the refusal is then what the object says, and not that it is one.
-/

namespace CanvasLift.Client

variable {depth : Nat} {service : WideText} {reason : Text} {status : Int} {body : Bytes}
  {fields : List (WideText × Json)}
  {p : Json → Bool}

def Delivers (depth : Nat) (body : Bytes) (fields : List (WideText × Json)) : Prop :=
  ∃ t, body = Utf8.encode t ∧ Json.ofText depth t = .ok (.object fields)

def GivenUp (depth : Nat) (body : Bytes) : Prop := ∃ t, body = Utf8.encode t ∧ Json.GivenUp depth t

def BodyHas (depth : Nat) (p : Json → Bool) (body : Bytes) : Prop :=
  ∃ fields, Delivers depth body fields ∧ p (.object fields) = true

def reportsSuccess (value : Json) : Bool := (value.field? "success").any Json.holds

def reportsHealth (value : Json) : Bool := (value.field? "status").bind Json.text? = some ("ok" : Text)

theorem decode_eq_some_iff :
    decode depth body = .ok (some (.object fields)) ↔ Delivers depth body fields := by
  constructor
  · intro h
    rw [decode] at h
    split at h
    · cases h
    · next t hread =>
      refine ⟨t, (Utf8.encode_of_decode hread).symm, ?_⟩
      split at h
      · next hobject =>
        obtain rfl := Json.object.inj (Option.some.inj (Except.ok.inj h))
        exact hobject
      all_goals cases h
  · rintro ⟨t, rfl, ht⟩
    rw [decode, Utf8.decode_encode]
    dsimp only
    rw [ht]

theorem Delivers.unique {others : List (WideText × Json)} (h : Delivers depth body fields)
    (hothers : Delivers depth body others) : others = fields := by
  have heq := (decode_eq_some_iff.2 hothers).symm.trans (decode_eq_some_iff.2 h)
  exact Json.object.inj (Option.some.inj (Except.ok.inj heq))

theorem Delivers.bodyHas_iff (h : Delivers depth body fields) :
    BodyHas depth p body ↔ p (.object fields) = true := by
  constructor
  · rintro ⟨others, hothers, hp⟩
    exact h.unique hothers ▸ hp
  · exact fun hp ↦ ⟨fields, h, hp⟩

theorem not_bodyHas (h : ∀ fields, ¬ Delivers depth body fields) : ¬ BodyHas depth p body := by
  rintro ⟨fields, hfields, -⟩
  exact h fields hfields

theorem decode_cases (depth : Nat) (body : Bytes) :
    (∃ fields, decode depth body = .ok (some (.object fields))) ∨ decode depth body = .ok none ∨
      ∃ fault, decode depth body = .error fault ∧ fault.isUnavailable = false := by
  rw [decode]
  split
  · exact .inr (.inl rfl)
  · split
    · exact .inl ⟨_, rfl⟩
    · exact .inr (.inl rfl)
    · exact .inr (.inl rfl)
    · exact .inr (.inr ⟨_, rfl, rfl⟩)
    · exact .inr (.inr ⟨_, rfl, rfl⟩)

/-- What a refusal comes to: the object in its body, its status if there is no object, or a fault of the
reader that is none of the service. -/
theorem payload_refused_cases (depth : Nat) (service : WideText) (reason : Text) (status : Int)
    (body : Bytes) :
    (∃ fields, Delivers depth body fields ∧ ¬ GivenUp depth body ∧
      payload depth service (.refused status reason body) = .ok (.object fields)) ∨
    ((∀ fields, ¬ Delivers depth body fields) ∧ ¬ GivenUp depth body ∧
      payload depth service (.refused status reason body) = .error (.badStatus status reason)) ∨
    ((∀ fields, ¬ Delivers depth body fields) ∧ GivenUp depth body ∧
      ∃ fault, payload depth service (.refused status reason body) = .error fault ∧
        fault.isUnavailable = false) := by
  have hgiven : GivenUp depth body ↔ ¬ IsAnswer (decode depth body) := by
    rw [isAnswer_decode_iff, not_not]
    rfl
  simp only [hgiven, ← decode_eq_some_iff, payload]
  obtain ⟨fields, h⟩ | h | ⟨fault, h, hfault⟩ := decode_cases depth body
  · exact .inl ⟨fields, h, by simp [h, IsAnswer], by rw [h]; rfl⟩
  · exact .inr (.inl ⟨by simp [h], by simp [h, IsAnswer], by rw [h]; rfl⟩)
  · exact .inr (.inr ⟨by simp [h], by simp [h, IsAnswer, hfault], fault, by rw [h]; rfl, hfault⟩)

theorem payload_refused_of_delivers (h : Delivers depth body fields) :
    payload depth service (.refused status reason body) = payload depth service (.answered body) := by
  rw [payload, payload, decode_eq_some_iff.2 h]
  rfl

/-- The service cannot be used, or it has sent the manifest of a failure. -/
def Fails (r : Except Fault Manifest) : Prop :=
  (∃ fault, r = .error fault ∧ fault.isUnavailable = true) ∨ ∃ m, r = .ok m ∧ m.success = false

theorem generated_refused_spec (depth : Nat) (service : WideText) (reason : Text) (status : Int)
    (body : Bytes) :
    let r := generated depth service (.refused status reason body)
    (Fails r ↔ ¬ BodyHas depth reportsSuccess body ∧ ¬ GivenUp depth body) ∧
      ((∃ m, r = .ok m ∧ m.success = true) ↔ BodyHas depth reportsSuccess body) := by
  intro r
  have hr : r = (payload depth service (.refused status reason body)).map Manifest.ofJson := rfl
  obtain ⟨fields, hbody, hgiven, h⟩ | ⟨hnone, hgiven, h⟩ | ⟨hnone, hgiven, fault, h, hfault⟩ :=
    payload_refused_cases depth service reason status body
  · have hsuccess : reportsSuccess (.object fields) = (Manifest.ofJson (.object fields)).success := rfl
    simp [hr, h, hbody.bodyHas_iff, hsuccess, hgiven, Fails, Except.map]
  · simp [hr, h, not_bodyHas hnone, hgiven, Fails, Except.map, Fault.isUnavailable]
  · simp [hr, h, not_bodyHas hnone, hgiven, Fails, Except.map, hfault]

theorem healthy_refused_spec (depth : Nat) (service : WideText) (reason : Text) (status : Int)
    (body : Bytes) :
    let r := healthy depth service (.refused status reason body)
    (r = .ok false ↔ ¬ BodyHas depth reportsHealth body ∧ ¬ GivenUp depth body) ∧
      (r = .ok true ↔ BodyHas depth reportsHealth body) := by
  intro r
  have hr : r = healthy depth service (.refused status reason body) := rfl
  rw [healthy] at hr
  obtain ⟨fields, hbody, hgiven, h⟩ | ⟨hnone, hgiven, h⟩ | ⟨hnone, hgiven, fault, h, hfault⟩ :=
    payload_refused_cases depth service reason status body
  · simp [hr, h, hbody.bodyHas_iff, reportsHealth, hgiven]
  · simp [hr, h, not_bodyHas hnone, hgiven, Fault.isUnavailable]
  · simp [hr, h, not_bodyHas hnone, hgiven, hfault]

end CanvasLift.Client
