import CanvasLift.Proofs.Project.Settings

namespace CanvasLift

theorem WideText.ofText_eq_iff (t u : Text) : ofText t = ofText u ↔ t = u :=
  ⟨ofText_injective, congrArg _⟩

namespace Yaml.Value

variable {β : Type}

theorem lookup_filter_ne (fields : List (WideText × β)) (key other : WideText) :
    (fields.filter (·.1 ≠ key)).lookup other = if other = key then none else fields.lookup other := by
  induction fields with
  | nil => simp
  | cons field fields ih =>
    obtain ⟨k, v⟩ := field
    by_cases hk : k = key
    · subst hk
      rw [List.filter_cons_of_neg (by simp), ih, List.lookup_cons]
      by_cases hother : other = k
      · rw [if_pos hother, if_pos hother]
      · rw [if_neg hother, if_neg hother, beq_eq_false_iff_ne.2 hother]
    · rw [List.filter_cons_of_pos (by simpa using hk), List.lookup_cons, List.lookup_cons, ih]
      by_cases hother : other = k
      · subst hother
        simp [hk]
      · rw [beq_eq_false_iff_ne.2 hother]

theorem lookup_map_at (fields : List (WideText × β)) (key other : WideText) (f : β → β) :
    (fields.map fun field ↦ (field.1, if field.1 = key then f field.2 else field.2)).lookup other =
      (fields.lookup other).map fun v ↦ if other = key then f v else v := by
  induction fields with
  | nil => rfl
  | cons field fields ih =>
    obtain ⟨k, v⟩ := field
    rw [List.map_cons, List.lookup_cons, List.lookup_cons, ih]
    by_cases hother : other = k
    · subst hother
      simp
    · rw [beq_eq_false_iff_ne.2 hother]

def without (key : Text) : Value → Value
  | mapping fields => mapping (fields.filter (·.1 ≠ WideText.ofText key))
  | value => value

def changedAt (key : Text) (f : Value → Value) : Value → Value
  | mapping fields => mapping (fields.map fun field ↦
      (field.1, if field.1 = WideText.ofText key then f field.2 else field.2))
  | value => value

theorem field?_without (m : Value) (key other : Text) :
    (m.without key).field? other = if other = key then none else m.field? other := by
  cases m with
  | mapping fields =>
    rw [without, field?, field?, ← List.filter_reverse, lookup_filter_ne]
    simp only [WideText.ofText_eq_iff]
  | _ => simp [without, field?]

theorem field?_changedAt (m : Value) (key other : Text) (f : Value → Value) :
    (m.changedAt key f).field? other = (m.field? other).map fun v ↦ if other = key then f v else v := by
  cases m with
  | mapping fields =>
    rw [changedAt, field?, field?, ← List.map_reverse, lookup_map_at]
    simp only [WideText.ofText_eq_iff]
  | _ => rfl

end Yaml.Value

/-- The settings that an entry of the settings file is for. -/
inductive Setting
  | sourceDocument
  | sourceDirectory
  | componentsDirectory
  | baseUrl
  | timeout
  | hostName
  | portNumber
  deriving DecidableEq

namespace Setting

open Yaml (Value)
open Settings (text? real? whole? path? inSection)

/-- How the value of an entry is read; a path is read as a text first. -/
inductive Kind
  | text
  | real
  | whole

def kind : Setting → Kind
  | timeout => .real
  | portNumber => .whole
  | _ => .text

/-- The values of a kind: others are of an unusable type, or texts that cannot be parsed. -/
def Kind.takes : Kind → Value → Bool
  | .text, .text _ | .text, .int _ | .text, .float _ => true
  | .real, .int _ | .real, .float _ => true
  | .real, .text w => (Number.real? w.masked).isSome
  | .whole, .int _ => true
  | .whole, .text w => (Number.whole 10 w.masked).isOk
  | _, _ => false

def titles : List Text := ["helper", "service"]

def title? : Setting → Option Text
  | baseUrl | timeout => some "helper"
  | hostName | portNumber => some "service"
  | _ => none

def key : Setting → Text
  | sourceDocument => "source_document"
  | sourceDirectory => "source_dir"
  | componentsDirectory => "components_dir"
  | baseUrl => "base_url"
  | timeout => "request_timeout"
  | hostName => "host"
  | portNumber => "port"

def entry (setting : Setting) (m : Value) : Option Value :=
  match setting.title? with
  | none => m.field? setting.key
  | some title => inSection m title setting.key

def leftOut (setting : Setting) (m : Value) : Value :=
  match setting.title? with
  | none => m.without setting.key
  | some title => m.changedAt title (Value.without setting.key)

def Agrees : Setting → Settings → Settings → Prop
  | sourceDocument, s, s' => s.sourceDocument = s'.sourceDocument
  | sourceDirectory, s, s' => s.sourceDirectory = s'.sourceDirectory
  | componentsDirectory, s, s' => s.componentsDirectory = s'.componentsDirectory
  | baseUrl, s, s' => s.helper.baseUrl = s'.helper.baseUrl
  | timeout, s, s' => s.helper.timeout = s'.helper.timeout
  | hostName, s, s' => s.service.host = s'.service.host
  | portNumber, s, s' => s.service.portNumber = s'.service.portNumber

def Kind.Alike : Kind → Option Value → Option Value → Prop
  | .text, v, v' => text? v = text? v'
  | .real, v, v' => real? v = real? v'
  | .whole, v, v' => whole? v = whole? v'

theorem Kind.Alike.refl (kind : Kind) (v : Option Value) : kind.Alike v v := by
  cases kind <;> rfl

variable {host : Host} {root : Path} {m m' v : Value} {s s' : Settings} {setting : Setting}
  {kind : Kind} {title : Text}

theorem alike_none (h : kind.takes v = false) : kind.Alike (some v) none := by
  cases kind with
  | text =>
    cases v with
    | text | int | float => cases h
    | _ => rfl
  | real =>
    cases v with
    | text w =>
      have hnone : Number.real? w.masked = none := by simpa [Kind.takes] using h
      simp [Kind.Alike, real?, hnone]
    | int | float => cases h
    | _ => rfl
  | whole =>
    cases v with
    | text w =>
      cases hread : Number.whole 10 w.masked with
      | error fault => simp [Kind.Alike, whole?, hread]
      | ok i =>
        rw [Kind.takes, hread] at h
        cases h
    | int => cases h
    | _ => rfl

/-- Entries that are read alike, one for each setting, lead to the same settings. -/
theorem ofMapping_congr (h : ∀ setting : Setting, setting.kind.Alike (setting.entry m) (setting.entry m')) :
    Settings.ofMapping host root m = Settings.ofMapping host root m' := by
  have hpath {v v' : Option Value} (hv : text? v = text? v') : path? host root v = path? host root v' := by
    rw [Settings.path?_eq_bind, Settings.path?_eq_bind, hv]
  have hdocument : text? (m.field? "source_document") = text? (m'.field? "source_document") :=
    h sourceDocument
  have hdirectory : text? (m.field? "source_dir") = text? (m'.field? "source_dir") := h sourceDirectory
  have hcomponents : text? (m.field? "components_dir") = text? (m'.field? "components_dir") :=
    h componentsDirectory
  have hurl : text? (inSection m "helper" "base_url") = text? (inSection m' "helper" "base_url") := h baseUrl
  have htimeout : real? (inSection m "helper" "request_timeout") =
    real? (inSection m' "helper" "request_timeout") := h timeout
  have hname : text? (inSection m "service" "host") = text? (inSection m' "service" "host") := h hostName
  have hport : whole? (inSection m "service" "port") = whole? (inSection m' "service" "port") := h portNumber
  rw [Settings.ofMapping, Settings.ofMapping, hpath hdocument, hpath hdirectory, hpath hcomponents,
    Settings.helperOf_field, Settings.helperOf_field, hurl, htimeout, Settings.serviceOf_field,
    Settings.serviceOf_field, hname, hport]

theorem eq_of_key {a b : Setting} (h : a.key = b.key) : a = b := by
  cases a <;> cases b <;> first | rfl | exact absurd h (by decide)

theorem key_not_title (setting : Setting) : setting.key ∉ titles := by
  cases setting <;> decide

theorem mem_titles (h : setting.title? = some title) : title ∈ titles := by
  cases setting <;> cases h <;> decide

theorem key_ne (other : Setting) (h : setting.title? = some title) : other.key ≠ title := by
  rintro rfl
  exact other.key_not_title (mem_titles h)

theorem entry_leftOut (setting other : Setting) (m : Value) :
    other.entry (setting.leftOut m) = if other = setting then none else other.entry m := by
  have hkey : other.key = setting.key ↔ other = setting := ⟨eq_of_key, congrArg key⟩
  rw [entry, entry, leftOut]
  cases hother : other.title? with
  | none =>
    cases hsetting : setting.title? with
    | none => simp only [Value.field?_without, hkey]
    | some title =>
      have hne : other ≠ setting := by
        rintro rfl
        simp [hother] at hsetting
      simp [Value.field?_changedAt, key_ne other hsetting, hne]
  | some title =>
    cases hsetting : setting.title? with
    | none =>
      have hne : other ≠ setting := by
        rintro rfl
        simp [hother] at hsetting
      simp [inSection, Value.field?_without, (key_ne setting hother).symm, hne]
    | some title' =>
      dsimp only
      rw [inSection, inSection, Value.field?_changedAt]
      by_cases htitle : title = title'
      · cases m.field? title with
        | none => simp
        | some section_ => simp [htitle, Value.field?_without, hkey]
      · have hne : other ≠ setting := by
          rintro rfl
          exact htitle (Option.some.inj (hother.symm.trans hsetting))
        simp [htitle, hne]

theorem entry_without_section (htitle : title ∈ titles) (hv : m.field? title = some v)
    (hmapping : ∀ fields, v ≠ .mapping fields) (setting : Setting) :
    setting.entry (m.without title) = setting.entry m := by
  rw [entry, entry]
  cases h : setting.title? with
  | none =>
    have hne : setting.key ≠ title := by
      rintro rfl
      exact setting.key_not_title htitle
    simp [Value.field?_without, hne]
  | some title' =>
    dsimp only
    rw [inSection, inSection, Value.field?_without]
    split
    · next heq =>
      have hother : ∀ fields, some v ≠ some (.mapping fields) := fun fields hfields ↦
        hmapping fields (Option.some.inj hfields)
      rw [heq, hv, Settings.bind_field?_of_ne_mapping hother]
      rfl
    · rfl

theorem agrees_of_entry (hs : Settings.ofMapping host root m = .ok s)
    (hs' : Settings.ofMapping host root m' = .ok s') (h : setting.entry m = setting.entry m') :
    setting.Agrees s s' := by
  obtain ⟨_, _, _, _, _, _, hdocument, hdirectory, hcomponents, hurl, htimeout, hname, rfl⟩ :=
    Settings.exists_of_ofMapping hs
  obtain ⟨_, _, _, _, _, _, hdocument', hdirectory', hcomponents', hurl', htimeout', hname', rfl⟩ :=
    Settings.exists_of_ofMapping hs'
  have hread {α β : Type} {read : Option Value → Except Settings.Fault α} {v v' : Option Value} {a b : α}
      (ha : read v = .ok a) (hb : read v' = .ok b) (hv : v = v') (f : α → β) : f a = f b := by
    rw [hv, hb] at ha
    rw [Except.ok.inj ha]
  cases setting with
  | sourceDocument => exact hread hdocument hdocument' h (·.getD _)
  | sourceDirectory => exact hread hdirectory hdirectory' h (·.getD _)
  | componentsDirectory => exact hread hcomponents hcomponents' h (·.getD _)
  | baseUrl => exact hread hurl hurl' h (·.getD _)
  | timeout => exact hread htimeout htimeout' h id
  | hostName => exact hread hname hname' h (·.getD _)
  | portNumber => exact congrArg (fun v ↦ (whole? v).getD _) h

end Setting

namespace Settings

variable {host : Host} {root p p' : Path} {t t' : Tree} {m m' : Yaml.Value}

/-- The path leads to a settings file, at the root of a project, with a mapping in it. -/
def LeadsTo (host : Host) (t : Tree) (p root : Path) (m : Yaml.Value) : Prop :=
  ∃ file content, locate host t p = .ok file ∧ file.parent = root ∧
    t.read file = .ok (Utf8.encode content) ∧ documentOf host (Text.unifyBreaks content) = .ok m

theorem LeadsTo.load_eq (h : LeadsTo host t p root m) : load host t p = ofMapping host root m := by
  obtain ⟨file, content, hfile, rfl, hread, hm⟩ := h
  rw [load_eq_bind hfile hread, Utf8.decode_encode]
  dsimp only
  rw [hm]
  rfl

/-- Of two settings files for the same root, with whatever else in them, those settings are the same that
have the same entry. An entry with a value of an unusable type, or with a text that cannot be parsed, is
as good as none, and so is a section that is no mapping. -/
theorem entries_independent (h : LeadsTo host t p root m) (h' : LeadsTo host t' p' root m') :
    (∀ s s' setting, load host t p = .ok s → load host t' p' = .ok s' →
      Setting.entry setting m = setting.entry m' → setting.Agrees s s') ∧
    (∀ (setting : Setting) v, setting.entry m = some v → setting.kind.takes v = false →
      m' = setting.leftOut m → load host t' p' = load host t p) ∧
    ∀ title v, title ∈ Setting.titles → m.field? title = some v → (∀ fields, v ≠ .mapping fields) →
      m' = m.without title → load host t' p' = load host t p := by
  rw [h.load_eq, h'.load_eq]
  refine ⟨fun s s' setting hs hs' hentry ↦ Setting.agrees_of_entry hs hs' hentry, ?_, ?_⟩
  · rintro setting v hv hmalformed rfl
    refine (Setting.ofMapping_congr fun other ↦ ?_).symm
    rw [Setting.entry_leftOut]
    split
    · next heq =>
      rw [heq, hv]
      exact Setting.alike_none hmalformed
    · exact .refl _ _
  · rintro title v htitle hv hmapping rfl
    refine Setting.ofMapping_congr fun other ↦ ?_
    rw [Setting.entry_without_section htitle hv hmapping]
    exact .refl _ _

def withFlag (title : Option Text) : Yaml.Value :=
  .mapping ((.ofText "source_dir", .text "ui") ::
    (title.map fun name ↦ (WideText.ofText name, Yaml.Value.bool true)).toList)

def isWithFlag (title : Option Text) : Except Fault Yaml.Value → Bool
  | .ok (.mapping [(key, .text w)]) =>
    title = none && key = WideText.ofText "source_dir" && w = WideText.ofText "ui"
  | .ok (.mapping [(key, .text w), (other, .bool flag)]) =>
    title.map WideText.ofText = some other && flag && key = WideText.ofText "source_dir" &&
      w = WideText.ofText "ui"
  | _ => false

theorem eq_of_isWithFlag {r : Except Fault Yaml.Value} {title : Option Text}
    (h : isWithFlag title r = true) : r = .ok (withFlag title) := by
  rw [isWithFlag.eq_def] at h
  split at h
  · simp only [Bool.and_eq_true, decide_eq_true_eq] at h
    obtain ⟨⟨rfl, rfl⟩, rfl⟩ := h
    rfl
  · simp only [Bool.and_eq_true, decide_eq_true_eq] at h
    obtain ⟨⟨⟨htitle, rfl⟩, rfl⟩, rfl⟩ := h
    obtain ⟨name, rfl, rfl⟩ := Option.map_eq_some_iff.1 htitle
    rfl
  · cases h

/-- A truth value is neither a path nor a section, and takes nothing from the source directory that both
files give. -/
theorem entries_independent_of_flags :
    let host : Host := .withYaml ⟨.root, []⟩ [] []
    let p : Path := ⟨.root, []⟩
    let t (content : Text) : Tree :=
      Tree.empty.set [WideText.ofText fileName] (.file (Utf8.encode content))
    let plain : Text := "source_dir: ui\n"
    let unusable : Text := "source_dir: ui\ncomponents_dir: true\n"
    let noSection : Text := "source_dir: ui\nservice: true\n"
    (LeadsTo host (t plain) p p (withFlag none) ∧
      LeadsTo host (t unusable) p p (withFlag (some "components_dir")) ∧
      LeadsTo host (t noSection) p p (withFlag (some "service"))) ∧
    load host (t plain) p = load host (t unusable) p ∧
    load host (t plain) p = load host (t noSection) p ∧
    ∃ s s', load host (t unusable) p = .ok s ∧ load host (t noSection) p = .ok s' ∧
      Setting.sourceDirectory.Agrees s s' ∧ s.sourceDirectory = p.child "ui" := by
  intro host p t plain unusable noSection
  have hfile (content : Text) : locate host (t content) p = .ok ⟨.root, [fileName]⟩ := rfl
  have hread (content : Text) : (t content).read ⟨.root, [fileName]⟩ = .ok (Utf8.encode content) := rfl
  have hplain : LeadsTo host (t plain) p p (withFlag none) :=
    ⟨_, _, hfile _, rfl, hread _, eq_of_isWithFlag (by decide +kernel)⟩
  have hunusable : LeadsTo host (t unusable) p p (withFlag (some "components_dir")) :=
    ⟨_, _, hfile _, rfl, hread _, eq_of_isWithFlag (by decide +kernel)⟩
  have hnoSection : LeadsTo host (t noSection) p p (withFlag (some "service")) :=
    ⟨_, _, hfile _, rfl, hread _, eq_of_isWithFlag (by decide +kernel)⟩
  have hloaded : ∃ s, load host (t unusable) p = .ok s ∧ s.sourceDirectory = p.child "ui" :=
    ⟨_, hunusable.load_eq.trans rfl, by decide +kernel⟩
  have hloaded' : ∃ s, load host (t noSection) p = .ok s := ⟨_, hnoSection.load_eq.trans rfl⟩
  obtain ⟨s, hs, hgiven⟩ := hloaded
  obtain ⟨s', hs'⟩ := hloaded'
  refine ⟨⟨hplain, hunusable, hnoSection⟩, ?_, ?_, s, s', hs, hs', ?_, hgiven⟩
  · exact (entries_independent hunusable hplain).2.1 .componentsDirectory _ rfl rfl rfl
  · refine (entries_independent hnoSection hplain).2.2 "service" (.bool true) (by decide) rfl ?_ rfl
    rintro fields ⟨⟩
  · exact (entries_independent hunusable hnoSection).1 s s' .sourceDirectory hs hs' rfl

end Settings

end CanvasLift
