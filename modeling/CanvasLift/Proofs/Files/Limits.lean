import CanvasLift.Proofs.Files.Lookup
import CanvasLift.Proofs.Text.Parts
import CanvasLift.Proofs.Text.Utf8

/-!
Paths that are too long. They alone make a test of what is at a path fail, and a path that is too
long stays so when its last name grows. Paths that no system takes stay so as well.
-/

namespace CanvasLift

/-- Whether a system takes a symbol in the name of a file. -/
def Symbol.isNameable : Symbol → Bool
  | char c => c ≠ '\x00'
  | half n => isByte n

theorem WideText.faultFrom?_eq_none_iff {carried : Fin 2048 → Bool} {position : Nat} {w : WideText} :
    faultFrom? carried position w = none ↔ ∀ n, .half n ∈ w → carried n = true := by
  induction w generalizing position with
  | nil => simp [faultFrom?]
  | cons s w ih =>
    cases s with
    | char c => simp [faultFrom?, ih]
    | half n =>
      rw [faultFrom?]
      split
      · next hn =>
        rw [ih]
        simp only [List.mem_cons, Symbol.half.injEq]
        constructor
        · rintro h m (rfl | hm)
          · exact hn
          · exact h m hm
        · exact fun h m hm ↦ h m (.inr hm)
      · next hn => exact iff_of_false (by simp) fun h ↦ hn (h n List.mem_cons_self)

theorem WideText.bytes_append (w v : WideText) : (w ++ v).bytes = w.bytes ++ v.bytes := by
  simp [bytes]

namespace FileFault

variable {w v : WideText}

theorem ofName?_eq_none_iff : ofName? w = none ↔ ∀ s ∈ w, s.isNameable = true := by
  have hfault : w.faultFrom? Symbol.isByte 0 = none ↔ ∀ n, .half n ∈ w → Symbol.isByte n = true :=
    WideText.faultFrom?_eq_none_iff
  rw [ofName?]
  constructor
  · intro h s hs
    split at h
    · cases h
    · next hnone =>
      split at h
      · cases h
      · next hnull =>
        cases s with
        | char c =>
          refine decide_eq_true ?_
          rintro rfl
          exact hnull hs
        | half n => exact hfault.1 hnone n hs
  · intro h
    have hnull : .char '\x00' ∉ w := fun hmem ↦ absurd (h _ hmem) (by decide)
    rw [hfault.2 fun n hn ↦ h _ hn]
    exact if_neg hnull

theorem ofName?_ne_refused {refusal : Refusal} {p : Path} : ofName? w ≠ some (.refused refusal p) := by
  rw [ofName?]
  split
  · simp
  · split <;> simp

theorem ofName?_append_eq_none_iff : ofName? (w ++ v) = none ↔ ofName? w = none ∧ ofName? v = none := by
  simp only [ofName?_eq_none_iff, List.forall_mem_append]

end FileFault

namespace Path

theorem toText_child_append (p : Path) (name more : Name) :
    (p.child (name ++ more)).toText = (p.child name).toText ++ more := by
  simp only [toText, child, Text.joinWith_append_last]
  cases p.anchor with
  | here => simp
  | root => rfl
  | doubleRoot => rfl

theorem prefix_toText_join {p : Path} (hp : p.isAbsolute = true) (names : List Name) :
    p.toText <+: (p.join ⟨.here, names⟩).toText := by
  have hjoin : p.join ⟨.here, names⟩ = ⟨p.anchor, p.names ++ names⟩ := rfl
  have hnames := Text.prefix_joinWith_append [.char '/'] p.names names
  rw [hjoin, toText, toText]
  cases hanchor : p.anchor with
  | here =>
    rw [isAbsolute, hanchor] at hp
    cases hp
  | root => exact (List.prefix_append_right_inj [.char '/']).2 hnames
  | doubleRoot => exact (List.prefix_append_right_inj [.char '/', .char '/']).2 hnames

end Path

namespace Tree

variable {t u : Tree} {p : Path}

theorem locate_tooLong_iff :
    t.locate p = .error (.refused .nameTooLong p) ↔
      FileFault.ofName? p.toText = none ∧ (pathLimit ≤ p.toText.bytes.length ∨
        t.follow [] p.names = .error .nameTooLong) := by
  rw [locate]
  cases hname : FileFault.ofName? p.toText with
  | some fault =>
    refine iff_of_false ?_ (by simp)
    rintro ⟨⟩
    exact FileFault.ofName?_ne_refused hname
  | none =>
    dsimp only
    split
    · next hlen => exact ⟨fun _ ↦ ⟨rfl, .inl hlen⟩, fun _ ↦ rfl⟩
    · next hlen =>
      cases hf : t.follow [] p.names with
      | ok l => simp [hlen]
      | error refusal => simp [hlen]

theorem length_of_locate {l : Location} (h : t.locate p = .ok l) :
    p.toText.bytes.length < pathLimit := by
  rw [locate] at h
  split at h
  · cases h
  · split at h
    · cases h
    · next hlen => omega

theorem locate_of_ofName? {fault : FileFault} (h : FileFault.ofName? p.toText = some fault) :
    t.locate p = .error fault := by
  rw [locate, h]

theorem makeDirectories_of_ofName? {fault : FileFault}
    (h : FileFault.ofName? p.toText = some fault) : t.makeDirectories p = (.error fault, t) := by
  have hmade : t.makeDirectory p = .error fault := by
    rw [makeDirectory, locate_of_ofName? h]
    rfl
  obtain ⟨anchor, names⟩ := p
  obtain ⟨above, rfl⟩ : ∃ above, names = above.reverse := ⟨names.reverse, names.reverse_reverse.symm⟩
  rw [makeDirectories, List.reverse_reverse]
  cases above with
  | nil => cases anchor <;> cases h
  | cons name above =>
    rw [makeDirectoriesAt, hmade]
    cases fault with
    | refused refusal q => exact absurd h FileFault.ofName?_ne_refused
    | unencodable _ => rfl
    | nullCharacter => rfl

theorem exists_locate_of_join {l : Location} {names : List Name}
    (hp : p.isAbsolute = true) (h : t.locate (p.join ⟨.here, names⟩) = .ok l) :
    ∃ d, t.locate p = .ok d := by
  obtain ⟨more, hmore⟩ := Path.prefix_toText_join hp names
  have hf := follow_of_locate h
  have hjoin : (p.join ⟨.here, names⟩).names = p.names ++ names := rfl
  rw [hjoin, follow_append] at hf
  rw [locate] at h ⊢
  split at h
  · cases h
  · next hname =>
    split at h
    · cases h
    · next hlen =>
      rw [← hmore] at hname hlen
      rw [WideText.bytes_append, List.length_append] at hlen
      rw [(FileFault.ofName?_append_eq_none_iff.1 hname).1]
      dsimp only
      rw [if_neg (by omega)]
      cases hd : t.follow [] p.names with
      | ok d => exact ⟨d, rfl⟩
      | error refusal =>
        rw [hd] at hf
        cases hf

theorem stat_eq_error_iff {fault : FileFault} :
    t.stat p = .error fault ↔
      fault = .refused .nameTooLong p ∧ t.locate p = .error (.refused .nameTooLong p) := by
  have hnamed : ∀ refusal q, t.locate p = .error (.refused refusal q) → q = p := by
    intro refusal q h
    rw [locate] at h
    split at h
    · next hname =>
      cases h
      exact absurd hname FileFault.ofName?_ne_refused
    · split at h
      · cases h
        rfl
      · split at h
        · cases h
        · cases h
          rfl
  rw [stat]
  split
  · next l hl => simp [hl]
  · next q hq =>
    obtain rfl := hnamed _ _ hq
    simp [hq, eq_comm]
  · next other hne hl =>
    constructor
    · intro h
      cases h
    · intro h
      rw [h.2] at hl
      obtain rfl := Except.error.inj hl
      exact absurd rfl (hne p)

theorem isFile_eq_error_iff {fault : FileFault} :
    t.isFile p = .error fault ↔ t.stat p = .error fault := by
  rw [isFile]
  cases t.stat p with
  | ok e => simp [Except.map]
  | error other => simp [Except.map]

theorem isDirectory_eq_error_iff {fault : FileFault} :
    t.isDirectory p = .error fault ↔ t.stat p = .error fault := by
  rw [isDirectory]
  cases t.stat p with
  | ok e => simp [Except.map]
  | error other => simp [Except.map]

theorem stat_error_sameKinds (h : SameKinds t u) (p : Path) (fault : FileFault) :
    t.stat p = .error fault ↔ u.stat p = .error fault := by
  rw [stat_eq_error_iff, stat_eq_error_iff, locate_sameKinds h]

theorem stat_error_of_directoriesIn (h : DirectoriesIn t u) {fault : FileFault}
    (hs : t.stat p = .error fault) : u.stat p = .error fault := by
  obtain ⟨rfl, hl⟩ := stat_eq_error_iff.1 hs
  obtain ⟨hname, hlong⟩ := locate_tooLong_iff.1 hl
  refine stat_eq_error_iff.2 ⟨rfl, locate_tooLong_iff.2 ⟨hname, ?_⟩⟩
  exact hlong.imp_right (follow_tooLong_of_directoriesIn h)

theorem stat_eq_none {e : Option Entry} (h : ¬ ∃ l, t.locate p = .ok l) (hs : t.stat p = .ok e) :
    e = none := by
  rw [stat] at hs
  split at hs
  · next l hl => exact absurd ⟨l, hl⟩ h
  · cases hs
  · exact (Except.ok.inj hs).symm

theorem SameDirectories.stat_eq (h : SameDirectories t u)
    (hsame : ∀ l, t.locate p = .ok l → u.get? l = t.get? l) : u.stat p = t.stat p := by
  cases ht : t.stat p with
  | error fault => exact stat_error_of_directoriesIn h.left ht
  | ok e =>
    cases hu : u.stat p with
    | error fault =>
      rw [stat_error_of_directoriesIn h.right hu] at ht
      cases ht
    | ok e' =>
      by_cases hfound : ∃ l, t.locate p = .ok l
      · obtain ⟨l, hl⟩ := hfound
        rw [stat, hl] at ht
        rw [stat, h.locate_eq_ok_iff.2 hl] at hu
        rw [← ht, ← hu]
        exact congrArg Except.ok (hsame l hl)
      · have hlost : ¬ ∃ l, u.locate p = .ok l :=
          fun hfound' ↦ hfound (hfound'.imp fun _ ↦ h.locate_eq_ok_iff.1)
        rw [stat_eq_none hfound ht, stat_eq_none hlost hu]

theorem follow_tooLong_append {here : Location} {names : List Name} {name more : Name}
    (hup : name ++ more ≠ Path.up) (h : t.follow here (names ++ [name]) = .error .nameTooLong) :
    t.follow here (names ++ [name ++ more]) = .error .nameTooLong := by
  rw [follow_append] at h ⊢
  cases hl : t.follow here names with
  | error refusal =>
    rw [hl] at h
    exact h
  | ok l =>
    rw [hl] at h
    simp only [Except.bind, follow] at h ⊢
    split at h
    · cases h
    · cases h
    · rw [if_neg hup]
      split at h
      · cases h
      · split at h
        · next hlong =>
          rw [if_pos]
          rw [WideText.bytes_append, List.length_append]
          omega
        · cases h

theorem stat_error_child_append (h : DirectoriesIn t u) {name more : Name} {fault : FileFault}
    (hup : name ++ more ≠ Path.up) (hmore : FileFault.ofName? more = none)
    (hs : t.stat (p.child name) = .error fault) :
    u.stat (p.child (name ++ more)) =
      .error (.refused .nameTooLong (p.child (name ++ more))) := by
  obtain ⟨-, hl⟩ := stat_eq_error_iff.1 hs
  obtain ⟨hname, hlong⟩ := locate_tooLong_iff.1 hl
  refine stat_eq_error_iff.2 ⟨rfl, locate_tooLong_iff.2 ⟨?_, ?_⟩⟩
  · rw [Path.toText_child_append]
    exact FileFault.ofName?_append_eq_none_iff.2 ⟨hname, hmore⟩
  · obtain hlen | hfollow := hlong
    · left
      rw [Path.toText_child_append, WideText.bytes_append, List.length_append]
      omega
    · exact .inr (follow_tooLong_append hup (follow_tooLong_of_directoriesIn h hfollow))

end Tree

end CanvasLift
