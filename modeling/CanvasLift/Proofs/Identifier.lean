import CanvasLift.Files.Path
import CanvasLift.Identifier
import CanvasLift.Proofs.Text.Parts

namespace CanvasLift.Identifier

theorem require_eq_ok_iff {given : Option Text} {id : Text} :
    require given = .ok id ↔ ∃ raw, given = some raw ∧ id = sanitize raw ∧ id ≠ [] := by
  constructor
  · intro h
    rw [require.eq_def] at h
    split at h
    · cases h
    · cases h
    · next raw _ =>
      split at h
      · cases h
      · next hne =>
        obtain rfl := Except.ok.inj h
        exact ⟨raw, rfl, rfl, hne⟩
  · intro h
    obtain ⟨raw, rfl, rfl, hne⟩ := h
    cases raw with
    | nil => exact absurd rfl hne
    | cons c rest => simp only [require, if_neg hne]

theorem eq_sanitize_of_require {raw id : Text} (h : require (some raw) = .ok id) :
    id = sanitize raw := by
  obtain ⟨given, hgiven, hid, -⟩ := require_eq_ok_iff.1 h
  exact Option.some.inj hgiven ▸ hid

theorem isAllowed_of_require {given : Option Text} {id : Text} (h : require given = .ok id) :
    ∀ c ∈ id, isAllowed c = true := by
  obtain ⟨raw, -, rfl, -⟩ := require_eq_ok_iff.1 h
  exact fun c ↦ isAllowed_of_mem_sanitize

theorem sanitize_of_isAllowed {id : Text} (h : ∀ c ∈ id, isAllowed c = true) : sanitize id = id :=
  List.filter_eq_self.2 h

theorem not_mem_of_isAllowed {id : Text} (h : ∀ c ∈ id, isAllowed c = true) {c : Char}
    (hc : isAllowed c = false) : c ∉ id := by
  intro hmem
  rw [h c hmem] at hc
  cases hc

theorem ne_up_of_require {given : Option Text} {id : Text} (h : require given = .ok id) :
    WideText.ofText id ≠ Path.up := by
  intro hup
  obtain rfl := WideText.ofText_injective hup
  exact absurd (isAllowed_of_require h '.' (by decide)) (by decide)

theorem require_of_require {given : Option Text} {id : Text} (h : require given = .ok id) :
    require (some id) = .ok id := by
  have hclean := sanitize_of_isAllowed (isAllowed_of_require h)
  obtain ⟨_, -, -, hne⟩ := require_eq_ok_iff.1 h
  exact require_eq_ok_iff.2 ⟨id, rfl, hclean.symm, hne⟩

theorem Fault.message_ne_nil (fault : Fault) : fault.message ≠ [] := by
  cases fault <;> decide

theorem toNat_lt_of_isAlphanum {c : Char} (h : c.isAlphanum = true) : c.toNat < 128 := by
  obtain h | h := Bool.or_eq_true_iff.1 h
  · obtain h | h := Bool.or_eq_true_iff.1 h
    · have hr : 65 ≤ c.toNat ∧ c.toNat ≤ 90 := of_decide_eq_true h
      omega
    · have hr : 97 ≤ c.toNat ∧ c.toNat ≤ 122 :=
        (Bool.and_eq_true_iff.1 h).imp of_decide_eq_true of_decide_eq_true
      omega
  · have hr : 48 ≤ c.toNat ∧ c.toNat ≤ 57 :=
      (Bool.and_eq_true_iff.1 h).imp of_decide_eq_true of_decide_eq_true
    omega

theorem isAlphanum_changed {c : Char} (h : c.isAlphanum = true) :
    c.toUpper.isAlphanum = true ∧ c.toLower.isAlphanum = true := by
  have hall : ∀ n < 128, (Char.ofNat n).isAlphanum = true →
      (Char.ofNat n).toUpper.isAlphanum = true ∧ (Char.ofNat n).toLower.isAlphanum = true := by
    decide
  have hc := hall c.toNat (toNat_lt_of_isAlphanum h)
  rw [Char.ofNat_toNat] at hc
  exact hc h

theorem isAlphanum_of_mem_segments {t segment : Text} (ht : ∀ c ∈ t, isAllowed c = true)
    (hs : segment ∈ segments t) {c : Char} (hc : c ∈ segment) : c.isAlphanum = true := by
  obtain ⟨hmem, hne⟩ := Text.mem_of_mem_splitOn hs hc
  obtain ⟨d, hd, rfl⟩ := List.mem_map.1 hmem
  have hallowed := ht d hd
  split at hne
  · exact absurd rfl hne
  · next hd' =>
    rw [if_neg hd']
    simp only [isAllowed, Bool.or_eq_true, decide_eq_true_eq] at hallowed
    obtain (h | h) | h := hallowed
    · exact h
    · exact absurd h hd'
    · exact absurd h hne

theorem isAlphanum_of_mem_componentName {t : Text} {c : Char} (h : c ∈ componentName t) :
    c.isAlphanum = true := by
  obtain ⟨segment, hs, hc⟩ := List.mem_flatMap.1 h
  have hall : ∀ d ∈ segment, d.isAlphanum = true := fun d ↦
    isAlphanum_of_mem_segments (fun _ ↦ isAllowed_of_mem_sanitize) hs
  cases segment with
  | nil => cases hc
  | cons first rest =>
    obtain rfl | hc := List.mem_cons.1 hc
    · exact (isAlphanum_changed (hall first List.mem_cons_self)).1
    · obtain ⟨d, hd, rfl⟩ := List.mem_map.1 hc
      exact (isAlphanum_changed (hall d (List.mem_cons_of_mem _ hd))).2

theorem not_mem_componentName {t : Text} {c : Char} (hc : c.isAlphanum = false) :
    c ∉ componentName t := by
  intro h
  rw [isAlphanum_of_mem_componentName h] at hc
  cases hc

end CanvasLift.Identifier
