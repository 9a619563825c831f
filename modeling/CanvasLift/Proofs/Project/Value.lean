import CanvasLift.Project.Settings
import CanvasLift.Proofs.Except
import CanvasLift.Proofs.Number.Range

/-!
What is read of the value of one setting: what it gives, or nothing, so that it is passed over. Three
values are not passed over although they are of no use: a number too long to be printed, a number
beyond the finite ones, and a path from a home that is not known.
-/

namespace CanvasLift

namespace Settings

/-- Whether a fault is told as one of the settings; all others escape. -/
def Fault.IsReported (fault : Fault) : Prop :=
  (∃ problem, fault = .malformed problem) ∨ fault = .notMapping

variable {host : Host} {root p : Path} {m : Yaml.Value} {value : Option Yaml.Value} {w : WideText}
  {x : Binary64} {s : Settings} {fault : Fault}

inductive GivesText : Yaml.Value → WideText → Prop
  | text {w : WideText} (h : w ≠ []) : GivesText (.text w) w
  | int (i : Int) : GivesText (.int i) (Text.ofInt i)
  | float (x : Binary64) : GivesText (.float x) x.toText

inductive GivesReal : Yaml.Value → Binary64 → Prop
  | text {w : WideText} {x : Binary64} (h : Number.real? w.masked = some x) :
    GivesReal (.text w) x
  | int {i : Int} {x : Binary64} (h : Binary64.ofInt? i = some x) : GivesReal (.int i) x
  | float (x : Binary64) : GivesReal (.float x) x

inductive GivesWhole : Yaml.Value → Int → Prop
  | text {w : WideText} {i : Int} (h : Number.whole 10 w.masked = .ok i) (hi : i ≠ 0) :
    GivesWhole (.text w) i
  | int {i : Int} (hi : i ≠ 0) : GivesWhole (.int i) i

inductive GivesPath (host : Host) (root : Path) (y : Yaml.Value) : Path → Prop
  | expanded {w : WideText} {p : Path} (h : GivesText y w) (hp : host.expand? (.ofText w) = some p) :
    GivesPath host root y (root.join p)

def TooLong (value : Option Yaml.Value) : Prop :=
  ∃ i, value = some (.int i) ∧ Nat.pow 10 Number.digitLimit ≤ i.natAbs

def TooLarge (value : Option Yaml.Value) : Prop :=
  ∃ i, value = some (.int i) ∧ Binary64.wholeBound ≤ i.natAbs

def Homeless (host : Host) (value : Option Yaml.Value) : Prop :=
  ∃ y w, value = some y ∧ GivesText y w ∧ host.expand? (.ofText w) = none

/-- What is read of the value of a setting: what it gives, if it gives anything. -/
inductive Yields {α : Type} (Gives : Yaml.Value → α → Prop) (value : Option Yaml.Value) :
    Option α → Prop
  | some {y : Yaml.Value} {a : α} (hy : value = some y) (h : Gives y a) :
    Yields Gives value (some a)
  | none (h : ∀ y, value = some y → ∀ a, ¬ Gives y a) : Yields Gives value none

theorem text?_eq_error_iff : text? value = .error fault ↔ fault = .unprintable ∧ TooLong value := by
  rw [text?.eq_def, TooLong]
  split
  · simp
  · next i =>
    dsimp only
    split
    · next h => exact ⟨fun heq ↦ ⟨(Except.error.inj heq).symm, i, rfl, h⟩, fun heq ↦ heq.1 ▸ rfl⟩
    · next h =>
      simp only [reduceCtorEq, false_iff]
      rintro ⟨-, _, ⟨⟩, hlong⟩
      exact h hlong
  · simp
  · next hint _ =>
    simp only [reduceCtorEq, false_iff]
    rintro ⟨-, i, hi, -⟩
    exact hint i hi

theorem yields_text {r : Option WideText} (h : text? value = .ok r) : Yields GivesText value r := by
  rw [text?.eq_def] at h
  split at h
  · next w =>
    obtain rfl := Except.ok.inj h
    split
    · next hw =>
      apply Yields.none
      rintro y ⟨⟩ t ⟨hne⟩
      exact hne hw
    · next hw => exact .some rfl (.text hw)
  · next i =>
    dsimp only at h
    split at h
    · cases h
    · obtain rfl := Except.ok.inj h
      exact .some rfl (.int i)
  · next x =>
    obtain rfl := Except.ok.inj h
    exact .some rfl (.float x)
  · next htext hint hfloat =>
    obtain rfl := Except.ok.inj h
    apply Yields.none
    intro y hy t ht
    cases ht with
    | text _ => exact htext _ hy
    | int => exact hint _ hy
    | float => exact hfloat _ hy

theorem real?_eq_error_iff :
    real? value = .error fault ↔ fault = .beyondBinary64 ∧ TooLarge value := by
  simp only [TooLarge, ← Binary64.ofInt?_eq_none_iff]
  rw [real?.eq_def]
  split
  · next i =>
    split
    · next x h => simp [h]
    · next h => simp [h, eq_comm]
  · simp
  · simp
  · next hint _ _ =>
    simp only [reduceCtorEq, false_iff]
    rintro ⟨-, i, hi, -⟩
    exact hint i hi

theorem yields_real {r : Option Binary64} (h : real? value = .ok r) :
    Yields GivesReal value r := by
  rw [real?.eq_def] at h
  split at h
  · next i =>
    split at h
    · next x hx =>
      obtain rfl := Except.ok.inj h
      exact .some rfl (.int hx)
    · cases h
  · next x =>
    obtain rfl := Except.ok.inj h
    exact .some rfl (.float x)
  · next w =>
    obtain rfl := Except.ok.inj h
    cases hx : Number.real? w.masked with
    | some x => exact .some rfl (.text hx)
    | none =>
      apply Yields.none
      rintro y ⟨⟩ x ⟨hsome⟩
      rw [hx] at hsome
      cases hsome
  · next hint hfloat htext =>
    obtain rfl := Except.ok.inj h
    apply Yields.none
    intro y hy x hx
    cases hx with
    | text _ => exact htext _ hy
    | int _ => exact hint _ hy
    | float => exact hfloat _ hy

theorem yields_whole (value : Option Yaml.Value) : Yields GivesWhole value (whole? value) := by
  rw [whole?.eq_def]
  split
  · next i =>
    split
    · next hi =>
      apply Yields.none
      rintro y ⟨⟩ n hn
      cases hn with
      | int hne => exact hne hi
    · next hi => exact .some rfl (.int hi)
  · next w =>
    split
    · next i hread =>
      split
      · next hi =>
        apply Yields.none
        rintro y ⟨⟩ n hn
        cases hn with
        | text hother hne =>
          rw [hread] at hother
          exact hne (Except.ok.inj hother ▸ hi)
      · next hi => exact .some rfl (.text hread hi)
    · next fault hread =>
      apply Yields.none
      rintro y ⟨⟩ n ⟨hn, -⟩
      rw [hread] at hn
      cases hn
  · next hint htext =>
    apply Yields.none
    intro y hy n hn
    cases hn with
    | text _ _ => exact htext _ hy
    | int _ => exact hint _ hy

theorem GivesText.unique {y : Yaml.Value} {w v : WideText} (hw : GivesText y w)
    (hv : GivesText y v) : w = v := by
  generalize hy : y = z at hv
  cases hw <;> cases hv <;> cases hy <;> rfl

theorem path?_eq_bind (host : Host) (root : Path) (value : Option Yaml.Value) :
    path? host root value = text? value >>= fun
      | none => .ok none
      | some w => match host.expand? (.ofText w) with
        | some p => .ok (some (root.join p))
        | none => .error (.noHome (Host.userFault? (.ofText w))) := by
  rw [path?]
  congr

theorem yields_path {r : Option Path} (h : path? host root value = .ok r) :
    Yields (GivesPath host root) value r := by
  rw [path?_eq_bind] at h
  obtain ⟨given, hgiven, hr⟩ := exceptBind_eq_ok_iff.1 h
  cases yields_text hgiven with
  | none hnone =>
    obtain rfl := Except.ok.inj hr
    apply Yields.none
    rintro y hy p ⟨ht, -⟩
    exact hnone y hy _ ht
  | some hy ht =>
    dsimp only at hr
    split at hr
    · next p hp =>
      obtain rfl := Except.ok.inj hr
      exact .some hy (.expanded ht hp)
    · cases hr

theorem path?_eq_error_iff :
    (∃ fault, path? host root value = .error fault) ↔ TooLong value ∨ Homeless host value := by
  simp only [path?_eq_bind, exceptBind_eq_error_iff]
  constructor
  · rintro ⟨fault, hlong | ⟨given, hgiven, h⟩⟩
    · exact .inl (text?_eq_error_iff.1 hlong).2
    · cases yields_text hgiven with
      | none hnone => cases h
      | some hy ht =>
        dsimp only at h
        split at h
        · cases h
        · next hhome => exact .inr ⟨_, _, hy, ht, hhome⟩
  · rintro (hlong | ⟨y, w, hy, hw, hhome⟩)
    · exact ⟨_, .inl (text?_eq_error_iff.2 ⟨rfl, hlong⟩)⟩
    · cases hgiven : text? value with
      | error fault => exact ⟨fault, .inl rfl⟩
      | ok given =>
        refine ⟨.noHome (Host.userFault? (.ofText w)), .inr ⟨given, rfl, ?_⟩⟩
        cases yields_text hgiven with
        | none hnone => exact absurd hw (hnone y hy w)
        | some hy' hw' =>
          obtain rfl := Option.some.inj (hy'.symm.trans hy)
          rw [hw'.unique hw]
          dsimp only
          rw [hhome]

end Settings

end CanvasLift
