import CanvasLift.Proofs.Files.Lookup
import CanvasLift.Proofs.Project.Value
import CanvasLift.Proofs.Text.Utf8

/-!
What is made of the contents of a settings file: settings, each the given value or the default, or a
fault. The main statements say exactly which contents lead to a fault that is not reported.
-/

namespace CanvasLift.Settings

variable {host : Host} {root p : Path} {m : Yaml.Value} {value : Option Yaml.Value}
  {s : Settings} {fault : Fault}

def inSection (m : Yaml.Value) (title key : Text) : Option Yaml.Value :=
  (m.field? title).bind (Yaml.Value.field? key)

theorem bind_field?_of_ne_mapping (h : ∀ fields, value ≠ some (.mapping fields)) (key : Text) :
    value.bind (Yaml.Value.field? key) = none := by
  cases value with
  | none => rfl
  | some y =>
    cases y with
    | mapping fields => exact absurd rfl (h fields)
    | _ => rfl

theorem helperOf_field (m : Yaml.Value) :
    helperOf (m.field? "helper") = text? (inSection m "helper" "base_url") >>= fun url ↦
      real? (inSection m "helper" "request_timeout") >>= fun timeout ↦
        .ok ⟨url.getD defaultHelper.baseUrl, timeout⟩ := by
  rw [inSection, inSection, helperOf.eq_def]
  split
  · next fields hfields =>
    rw [hfields]
    by_cases hempty : fields = []
    · subst hempty
      rfl
    · rw [if_neg hempty]
      rfl
  · next hother =>
    rw [bind_field?_of_ne_mapping hother, bind_field?_of_ne_mapping hother]
    rfl

theorem serviceOf_field (m : Yaml.Value) :
    serviceOf (m.field? "service") = text? (inSection m "service" "host") >>= fun host ↦
      .ok ⟨host.getD defaultService.host,
        (whole? (inSection m "service" "port")).getD defaultService.portNumber⟩ := by
  rw [inSection, inSection, serviceOf.eq_def]
  split
  · next fields hfields =>
    rw [hfields]
    rfl
  · next hother =>
    rw [bind_field?_of_ne_mapping hother, bind_field?_of_ne_mapping hother]
    rfl

def paths (m : Yaml.Value) : List (Option Yaml.Value) :=
  [m.field? "source_document", m.field? "source_dir", m.field? "components_dir"]

/-- A mapping with a value that is not passed over although it is of no use. -/
inductive Unusable (host : Host) (m : Yaml.Value) : Prop
  | path {value : Option Yaml.Value} (hvalue : value ∈ paths m)
    (h : TooLong value ∨ Homeless host value)
  | baseUrl (h : TooLong (inSection m "helper" "base_url"))
  | timeout (h : TooLarge (inSection m "helper" "request_timeout"))
  | host (h : TooLong (inSection m "service" "host"))

/-- What a setting comes to: what its value gives, and the default where that gives nothing. -/
def Chosen {α : Type} (Gives : Yaml.Value → α → Prop) (value : Option Yaml.Value)
    (default a : α) : Prop :=
  ∃ r, Yields Gives value r ∧ a = r.getD default

structure Settled (host : Host) (root : Path) (m : Yaml.Value) (s : Settings) : Prop where
  atRoot : s.root = root
  document : Chosen (GivesPath host root) (m.field? "source_document")
    (defaults root).sourceDocument s.sourceDocument
  directory : Chosen (GivesPath host root) (m.field? "source_dir")
    (defaults root).sourceDirectory s.sourceDirectory
  components : Chosen (GivesPath host root) (m.field? "components_dir")
    (defaults root).componentsDirectory s.componentsDirectory
  baseUrl : Chosen GivesText (inSection m "helper" "base_url")
    defaultHelper.baseUrl s.helper.baseUrl
  timeout : Yields GivesReal (inSection m "helper" "request_timeout") s.helper.timeout
  hostName : Chosen GivesText (inSection m "service" "host") defaultService.host s.service.host
  portNumber : Chosen GivesWhole (inSection m "service" "port")
    defaultService.portNumber s.service.portNumber

theorem exists_of_ofMapping (h : ofMapping host root m = .ok s) :
    ∃ document directory components url timeout name,
      path? host root (m.field? "source_document") = .ok document ∧
      path? host root (m.field? "source_dir") = .ok directory ∧
      path? host root (m.field? "components_dir") = .ok components ∧
      text? (inSection m "helper" "base_url") = .ok url ∧
      real? (inSection m "helper" "request_timeout") = .ok timeout ∧
      text? (inSection m "service" "host") = .ok name ∧
      s = ⟨root, document.getD (defaults root).sourceDocument,
        directory.getD (defaults root).sourceDirectory,
        components.getD (defaults root).componentsDirectory,
        ⟨url.getD defaultHelper.baseUrl, timeout⟩,
        ⟨name.getD defaultService.host,
          (whole? (inSection m "service" "port")).getD defaultService.portNumber⟩⟩ := by
  rw [ofMapping, helperOf_field, serviceOf_field] at h
  simp only [exceptBind_eq_ok_iff] at h
  obtain ⟨document, hdocument, directory, hdirectory, components, hcomponents, helper,
    ⟨url, hurl, timeout, htimeout, hhelper⟩, service, ⟨name, hname, hservice⟩, hs⟩ := h
  cases hhelper
  cases hservice
  exact ⟨_, _, _, _, _, _, hdocument, hdirectory, hcomponents, hurl, htimeout, hname,
    (Except.ok.inj hs).symm⟩

theorem settled_of_ofMapping (h : ofMapping host root m = .ok s) : Settled host root m s := by
  obtain ⟨_, _, _, _, _, _, hdocument, hdirectory, hcomponents, hurl, htimeout, hname, rfl⟩ :=
    exists_of_ofMapping h
  exact ⟨rfl, ⟨_, yields_path hdocument, rfl⟩, ⟨_, yields_path hdirectory, rfl⟩,
    ⟨_, yields_path hcomponents, rfl⟩, ⟨_, yields_text hurl, rfl⟩, yields_real htimeout,
    ⟨_, yields_text hname, rfl⟩, ⟨_, yields_whole _, rfl⟩⟩

theorem not_tooLong_of_text? {r : Option WideText} (h : text? value = .ok r) : ¬ TooLong value := by
  intro hlong
  rw [text?_eq_error_iff.2 ⟨rfl, hlong⟩] at h
  cases h

theorem not_tooLarge_of_real? {r : Option Binary64} (h : real? value = .ok r) :
    ¬ TooLarge value := by
  intro hlarge
  rw [real?_eq_error_iff.2 ⟨rfl, hlarge⟩] at h
  cases h

theorem not_homeless_of_path? {r : Option Path} (h : path? host root value = .ok r) :
    ¬ (TooLong value ∨ Homeless host value) := by
  intro hbad
  obtain ⟨fault, hfault⟩ : ∃ fault, path? host root value = .error fault :=
    path?_eq_error_iff.2 hbad
  rw [h] at hfault
  cases hfault

theorem not_unusable_of_ofMapping (h : ofMapping host root m = .ok s) : ¬ Unusable host m := by
  obtain ⟨_, _, _, _, _, _, hdocument, hdirectory, hcomponents, hurl, htimeout, hname, -⟩ :=
    exists_of_ofMapping h
  intro hbad
  cases hbad with
  | path hvalue hbad =>
    simp only [paths, List.mem_cons, List.not_mem_nil, or_false] at hvalue
    rcases hvalue with rfl | rfl | rfl
    · exact not_homeless_of_path? hdocument hbad
    · exact not_homeless_of_path? hdirectory hbad
    · exact not_homeless_of_path? hcomponents hbad
  | baseUrl hlong => exact not_tooLong_of_text? hurl hlong
  | timeout hlarge => exact not_tooLarge_of_real? htimeout hlarge
  | host hlong => exact not_tooLong_of_text? hname hlong

theorem not_isReported_of_path? (h : path? host root value = .error fault) :
    ¬ fault.IsReported := by
  rw [path?_eq_bind, exceptBind_eq_error_iff] at h
  rcases h with hlong | ⟨given, -, h⟩
  · rw [(text?_eq_error_iff.1 hlong).1]
    simp [Fault.IsReported]
  · split at h
    · cases h
    · split at h
      · cases h
      · cases h
        simp [Fault.IsReported]

theorem unusable_of_ofMapping (h : ofMapping host root m = .error fault) :
    Unusable host m ∧ ¬ fault.IsReported := by
  rw [ofMapping, helperOf_field, serviceOf_field] at h
  simp only [exceptBind_eq_error_iff, reduceCtorEq, or_false, and_false, exists_false] at h
  rcases h with h | ⟨_, _, h | ⟨_, _, h | ⟨_, _, h | ⟨_, _, h⟩⟩⟩⟩
  · exact ⟨.path (by simp [paths]) (path?_eq_error_iff.1 ⟨fault, h⟩), not_isReported_of_path? h⟩
  · exact ⟨.path (by simp [paths]) (path?_eq_error_iff.1 ⟨fault, h⟩), not_isReported_of_path? h⟩
  · exact ⟨.path (by simp [paths]) (path?_eq_error_iff.1 ⟨fault, h⟩), not_isReported_of_path? h⟩
  · rcases h with hurl | ⟨_, _, htimeout⟩
    · obtain ⟨rfl, hlong⟩ := text?_eq_error_iff.1 hurl
      exact ⟨.baseUrl hlong, by simp [Fault.IsReported]⟩
    · obtain ⟨rfl, hlarge⟩ := real?_eq_error_iff.1 htimeout
      exact ⟨.timeout hlarge, by simp [Fault.IsReported]⟩
  · rcases h with hname | ⟨_, _, hlast⟩
    · obtain ⟨rfl, hlong⟩ := text?_eq_error_iff.1 hname
      exact ⟨.host hlong, by simp [Fault.IsReported]⟩
    · cases hlast

theorem documentOf_eq_error {content : Text} (h : documentOf host content = .error fault) :
    fault.IsReported ∨ ∃ inner, fault = .value inner ∧ inner ≠ .malformed ∧
      Text.allBlank content = false ∧ host.document content = .error inner := by
  rw [documentOf] at h
  split at h
  · cases h
  · next hblank =>
    split at h
    · cases h
    · split at h
      · exact .inl (.inr (Except.error.inj h).symm)
      · cases h
    · exact .inl (.inl ⟨_, (Except.error.inj h).symm⟩)
    · next inner hne hread =>
      refine .inr ⟨inner, (Except.error.inj h).symm, hne, ?_, hread⟩
      simpa using hblank

theorem documentOf_eq_value {content : Text} {inner : Yaml.Fault} (hne : inner ≠ .malformed)
    (hblank : Text.allBlank content = false)
    (hread : host.document content = .error inner) :
    documentOf host content = .error (.value inner) := by
  rw [documentOf, hblank, hread]
  cases inner <;> first | rfl | exact absurd rfl hne

/-- Contents of a settings file with a fault that is none of form: they are no UTF-8, a value in the
document denotes nothing, or one that does cannot be used. -/
inductive Unreadable (host : Host) (bytes : Bytes) : Prop
  | encoding (h : ∀ content, bytes ≠ Utf8.encode content)
  | value {content : Text} {fault : Yaml.Fault} (hbytes : bytes = Utf8.encode content)
    (hne : fault ≠ .malformed) (hblank : Text.allBlank (Text.unifyBreaks content) = false)
    (h : host.document (Text.unifyBreaks content) = .error fault)
  | setting {content : Text} {m : Yaml.Value} (hbytes : bytes = Utf8.encode content)
    (hm : documentOf host (Text.unifyBreaks content) = .ok m) (h : Unusable host m)

theorem unreadable_encode_iff {content : Text} :
    Unreadable host (Utf8.encode content) ↔
      (∃ inner, inner ≠ .malformed ∧ Text.allBlank (Text.unifyBreaks content) = false ∧
        host.document (Text.unifyBreaks content) = .error inner) ∨
      ∃ m, documentOf host (Text.unifyBreaks content) = .ok m ∧ Unusable host m := by
  constructor
  · intro h
    cases h with
    | encoding hno => exact absurd rfl (hno content)
    | value hbytes hne hblank hread =>
      obtain rfl := Utf8.encode_injective hbytes
      exact .inl ⟨_, hne, hblank, hread⟩
    | setting hbytes hm hbad =>
      obtain rfl := Utf8.encode_injective hbytes
      exact .inr ⟨_, hm, hbad⟩
  · rintro (⟨inner, hne, hblank, hread⟩ | ⟨m, hm, hbad⟩)
    · exact .value rfl hne hblank hread
    · exact .setting rfl hm hbad

section Load

variable {file : Path} {bytes : Bytes} {t : Tree}

theorem loadResolved_eq_load {q r : Path} (hexpand : host.expand? p = some q)
    (hresolve : host.resolve q = .ok r) : loadResolved host t p = load host t r := by
  rw [loadResolved, hexpand]
  dsimp only
  rw [hresolve]
  rfl

theorem load_eq_bind (hfile : locate host t p = .ok file) (hbytes : t.read file = .ok bytes) :
    load host t p = (match Utf8.decode bytes with
      | .ok content => documentOf host (Text.unifyBreaks content)
      | .error fault => .error (.encoding fault)) >>= ofMapping host file.parent := by
  obtain ⟨l, hl, hget⟩ := Tree.read_eq_ok_iff.1 hbytes
  have hstat : t.stat file = .ok (some (.file bytes)) := by
    rw [Tree.stat, hl]
    exact congrArg Except.ok hget
  rw [load, hfile]
  simp only [bind, Except.bind, hstat, liftFile, readText, hbytes]
  cases Utf8.decode bytes <;> rfl

variable (hfile : locate host t p = .ok file) (hbytes : t.read file = .ok bytes)
include hfile hbytes

theorem settled_of_load (h : load host t p = .ok s) : ¬ Unreadable host bytes ∧
    ∃ content m, bytes = Utf8.encode content ∧ documentOf host (Text.unifyBreaks content) = .ok m ∧
      Settled host file.parent m s := by
  rw [load_eq_bind hfile hbytes, exceptBind_eq_ok_iff] at h
  obtain ⟨m, hm, hs⟩ := h
  split at hm
  · next content hcontent =>
    obtain rfl := Utf8.encode_of_decode hcontent
    refine ⟨?_, content, m, rfl, hm, settled_of_ofMapping hs⟩
    rw [unreadable_encode_iff]
    rintro (⟨inner, hne, hblank, hread⟩ | ⟨m', hm', hbad⟩)
    · rw [documentOf_eq_value hne hblank hread] at hm
      cases hm
    · obtain rfl := Except.ok.inj (hm.symm.trans hm')
      exact not_unusable_of_ofMapping hs hbad
  · cases hm

theorem unreadable_iff_of_load (h : load host t p = .error fault) :
    Unreadable host bytes ↔ ¬ fault.IsReported := by
  rw [load_eq_bind hfile hbytes] at h
  cases hdecode : Utf8.decode bytes with
  | error inner =>
    rw [hdecode] at h
    obtain rfl := Except.error.inj h
    have hno := Utf8.ne_encode_of_decode hdecode
    exact ⟨fun _ ↦ by simp [Fault.IsReported], fun _ ↦ .encoding hno⟩
  | ok content =>
    rw [hdecode] at h
    obtain rfl := Utf8.encode_of_decode hdecode
    rw [unreadable_encode_iff]
    rcases exceptBind_eq_error_iff.1 h with hdocument | ⟨m, hm, hs⟩
    · dsimp only at hdocument
      rcases documentOf_eq_error hdocument with hreported | ⟨inner, rfl, hne, hblank, hread⟩
      · refine ⟨?_, fun hnot ↦ absurd hreported hnot⟩
        rintro (⟨inner, hne, hblank, hread⟩ | ⟨m, hm, -⟩)
        · rw [documentOf_eq_value hne hblank hread] at hdocument
          obtain rfl := Except.error.inj hdocument
          simp [Fault.IsReported]
        · rw [hm] at hdocument
          cases hdocument
      · exact ⟨fun _ ↦ by simp [Fault.IsReported], fun _ ↦ .inl ⟨inner, hne, hblank, hread⟩⟩
    · obtain ⟨hbad, hnot⟩ := unusable_of_ofMapping hs
      exact ⟨fun _ ↦ hnot, fun _ ↦ .inr ⟨m, hm, hbad⟩⟩

theorem exists_load_iff :
    ((∃ s, load host t p = .ok s) ∨ ∃ fault, load host t p = .error fault ∧ fault.IsReported) ↔
      ¬ Unreadable host bytes := by
  cases hload : load host t p with
  | ok s => simp [(settled_of_load hfile hbytes hload).1]
  | error fault => simp [unreadable_iff_of_load hfile hbytes hload]

end Load

end CanvasLift.Settings
