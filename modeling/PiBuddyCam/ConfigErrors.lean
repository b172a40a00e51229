import PiBuddyCam.ConfigSchema

/-! Which exceptions reading the two configuration files can end in. The validators raise `ConfigError`
only, apart from the two places where the standard library can raise on a value of the document: the
message that prints a version, and `urlsplit` on the address of the broker. -/
namespace PiBuddyCam.Config

open TomlText

section OnlyConfig

variable {α β : Type}

def OnlyConfig (x : Checked α) : Prop := ∀ e, x = .error e → ∃ kind text, e = .config kind text

def Passes (x : Checked α) : Prop := ∃ a, x = .ok a

theorem onlyConfig_ok (a : α) : OnlyConfig (.ok a : Checked α) := by
  intro e he
  cases he

@[simp] theorem onlyConfig_pure (a : α) : OnlyConfig (pure a : Checked α) := onlyConfig_ok a

theorem onlyConfig_error (e : Raised) : OnlyConfig (.error e : Checked α) ↔ ∃ kind text, e = .config kind text := by
  constructor
  · intro h
    exact h e rfl
  · intro h e' he'
    cases he'
    exact h

@[simp] theorem onlyConfig_invalid (text : String) : OnlyConfig (invalid text : Checked α) :=
  (onlyConfig_error _).mpr ⟨_, _, rfl⟩

@[simp] theorem onlyConfig_unknown (text : String) : OnlyConfig (unknown text : Checked α) :=
  (onlyConfig_error _).mpr ⟨_, _, rfl⟩

theorem onlyConfig_error_bind (e : Raised) (f : α → Checked β) :
    OnlyConfig (Except.error e >>= f) ↔ ∃ kind text, e = .config kind text :=
  onlyConfig_error e

theorem onlyConfig_bind (x : Checked α) (f : α → Checked β) :
    OnlyConfig (x >>= f) ↔ OnlyConfig x ∧ ∀ a, x = .ok a → OnlyConfig (f a) := by
  cases x with
  | error e =>
    rw [onlyConfig_error_bind, onlyConfig_error]
    constructor
    · intro h
      exact ⟨h, fun a ha => by cases ha⟩
    · intro h
      exact h.1
  | ok a =>
    constructor
    · intro h
      exact ⟨onlyConfig_ok a, fun b hb => by cases hb; exact h⟩
    · intro h
      exact h.2 a rfl

theorem OnlyConfig.bind {x : Checked α} {f : α → Checked β} (hx : OnlyConfig x)
    (hf : ∀ a, x = .ok a → OnlyConfig (f a)) : OnlyConfig (x >>= f) :=
  (onlyConfig_bind x f).mpr ⟨hx, hf⟩

theorem onlyConfig_forM {f : α → Checked Unit} (hf : ∀ a, OnlyConfig (f a)) (l : List α) :
    OnlyConfig (l.forM f) := by
  induction l with
  | nil => exact onlyConfig_pure ()
  | cons a l ih => exact (hf a).bind fun _ _ => ih

theorem onlyConfig_foldlM {f : β → α → Checked β} (hf : ∀ b a, OnlyConfig (f b a)) (l : List α) (b : β) :
    OnlyConfig (l.foldlM f b) := by
  induction l generalizing b with
  | nil => exact onlyConfig_pure b
  | cons a l ih => exact (hf b a).bind fun b' _ => ih b'

variable {check : Value → Checked α}

theorem onlyConfig_entry (hcheck : ∀ v, OnlyConfig (check v))
    (table : OrderedDict String Value) (key : String) (default : α) : OnlyConfig (entry table key check default) := by
  unfold entry
  split <;> simp [hcheck]

theorem onlyConfig_scalar (hcheck : ∀ v, OnlyConfig (check v))
    (data : Document) (key : String) (default : α) : OnlyConfig (scalar data key check default) := by
  unfold scalar
  split <;> simp [hcheck]

end OnlyConfig

section Validators

theorem onlyConfig_checkSubkeys (document key : String) (allowed subs : List String) :
    OnlyConfig (checkSubkeys document key allowed subs) := by
  apply onlyConfig_forM
  intro sub
  split <;> simp

theorem onlyConfig_checkDeviceKey (e : String × Item) : OnlyConfig (checkDeviceKey e) := by
  unfold checkDeviceKey
  split
  · exact onlyConfig_checkSubkeys _ _ _ _
  · exact onlyConfig_invalid _
  · split <;> split <;> simp

theorem onlyConfig_checkSecretsKey (e : String × Item) : OnlyConfig (checkSecretsKey e) := by
  unfold checkSecretsKey
  split
  · exact onlyConfig_pure ()
  · split
    · exact onlyConfig_unknown _
    · exact onlyConfig_invalid _
    · exact onlyConfig_checkSubkeys _ _ _ _

variable (data : Document)

theorem onlyConfig_checkDeviceKeys : OnlyConfig (checkDeviceKeys data) :=
  onlyConfig_forM onlyConfig_checkDeviceKey data.entries

theorem onlyConfig_checkSecretsKeys : OnlyConfig (checkSecretsKeys data) :=
  onlyConfig_forM onlyConfig_checkSecretsKey data.entries

theorem onlyConfig_expectStr (path : String) (v : Value) : OnlyConfig (expectStr path v) := by
  unfold expectStr
  split <;> simp

theorem onlyConfig_validateCameraName (v : Value) : OnlyConfig (validateCameraName v) := by
  apply (onlyConfig_expectStr _ v).bind
  intro s _
  dsimp only
  split_ifs <;> simp

theorem onlyConfig_validatePrefix (path : String) (v : Value) : OnlyConfig (validatePrefix path v) := by
  apply (onlyConfig_expectStr path v).bind
  intro s _
  split_ifs <;> simp

theorem onlyConfig_validateEnabled (v : Value) : OnlyConfig (validateEnabled v) := by
  unfold validateEnabled
  split <;> simp

theorem onlyConfig_addServer (servers : List String) (v : Value) : OnlyConfig (addServer servers v) := by
  unfold addServer
  split
  · dsimp only
    split_ifs <;> simp
  · exact onlyConfig_invalid _

theorem onlyConfig_validateNtpServers (v : Value) : OnlyConfig (validateNtpServers v) := by
  unfold validateNtpServers
  split
  · split_ifs
    · exact onlyConfig_invalid _
    · exact onlyConfig_foldlM onlyConfig_addServer _ _
  · exact onlyConfig_invalid _

theorem onlyConfig_addMeta (d : OrderedDict String String) (e : String × Value) : OnlyConfig (addMeta d e) := by
  unfold addMeta
  split <;> simp

theorem onlyConfig_validateMeta : OnlyConfig (validateMeta data) := by
  unfold validateMeta
  split
  · exact onlyConfig_pure _
  · exact (onlyConfig_foldlM onlyConfig_addMeta _ _).bind fun _ _ => onlyConfig_pure _

theorem onlyConfig_secret (table key : String) : OnlyConfig (Host.secret data table key) :=
  onlyConfig_entry (fun v => (onlyConfig_expectStr _ v).bind fun _ _ => onlyConfig_pure _) _ _ _

theorem onlyConfig_server :
    OnlyConfig (entry (tableOf data "prusa") "server"
      (fun v => do pure (normalizePrusaServer (← expectStr "prusa.server" v))) defaultDevice.server) :=
  onlyConfig_entry (fun v => (onlyConfig_expectStr _ v).bind fun _ _ => onlyConfig_pure _) _ _ _

end Validators

namespace Host

variable (h : Host)

def VersionPrints (data : Document) : Prop :=
  ∀ version, data.get? "schema_version" = some (.value (.int version)) → 1 < version → h.printable version = true

structure ReachesUri (data : Document) : Prop where
  keys : Passes (checkDeviceKeys data)
  version : Passes (scalar data "schema_version" h.validateVersion 1)
  cameraName : Passes (scalar data "camera_name" validateCameraName defaultDevice.cameraName)
  fingerprint : Passes (scalar data "fingerprint" (expectStr "fingerprint") defaultDevice.fingerprint)
  server : Passes (entry (tableOf data "prusa") "server"
    (fun v => do pure (normalizePrusaServer (← expectStr "prusa.server" v))) defaultDevice.server)
  enabled : Passes (entry (tableOf data "mqtt") "enabled" validateEnabled defaultDevice.enabled)

def UriSplits (data : Document) : Prop :=
  ∀ uri, (tableOf data "mqtt").get? "uri" = some (.str uri) → h.urlsplit uri ≠ none

theorem onlyConfig_validateVersion (v : Value) :
    OnlyConfig (h.validateVersion v) ↔ ∀ version, v = .int version → 1 < version → h.printable version = true := by
  constructor
  · intro hv version heq hnew
    subst heq
    by_contra hnot
    rw [validateVersion, if_pos hnew, tooNew, if_neg hnot, onlyConfig_error] at hv
    obtain ⟨kind, text, hkind⟩ := hv
    cases hkind
  · intro hprints
    unfold validateVersion
    split
    · rename_i version
      split_ifs with hnew
      · rw [tooNew, if_pos (hprints version rfl hnew), onlyConfig_error]
        exact ⟨_, _, rfl⟩
      · exact onlyConfig_pure _
    · exact onlyConfig_invalid _

variable (data : Document)

theorem onlyConfig_version :
    OnlyConfig (scalar data "schema_version" h.validateVersion 1) ↔ h.VersionPrints data := by
  unfold scalar VersionPrints
  split
  · rename_i hnone
    constructor
    · intro _ version hv
      rw [hnone] at hv
      cases hv
    · intro _
      exact onlyConfig_pure _
  · rename_i v hv
    rw [onlyConfig_validateVersion]
    simp only [hv, Option.some.injEq, Item.value.injEq]
  · rename_i entries hentries
    rw [onlyConfig_validateVersion]
    simp only [hentries, Option.some.injEq, reduceCtorEq, false_implies, implies_true]

theorem onlyConfig_validateUri (v : Value) :
    OnlyConfig (h.validateUri v) ↔ ∀ uri, v = .str uri → h.urlsplit uri ≠ none := by
  unfold validateUri
  rw [onlyConfig_bind]
  constructor
  · intro hv uri heq hnone
    have hraise := hv.2 uri (by rw [heq]; rfl)
    simp only [hnone, onlyConfig_error] at hraise
    obtain ⟨kind, text, hkind⟩ := hraise
    cases hkind
  · intro hsplits
    constructor
    · exact onlyConfig_expectStr _ v
    · intro uri huri
      have hv : v = .str uri := by
        unfold expectStr at huri
        split at huri
        · cases huri
          rfl
        · cases huri
      split
      · rename_i hnone
        exact absurd hnone (hsplits uri hv)
      · split_ifs
        · exact onlyConfig_invalid _
        · exact onlyConfig_invalid _
        · split
          · exact onlyConfig_invalid _
          · exact onlyConfig_pure _
          · split_ifs <;> simp

theorem onlyConfig_uri :
    OnlyConfig (entry (tableOf data "mqtt") "uri" h.validateUri defaultDevice.uri) ↔ h.UriSplits data := by
  unfold entry UriSplits
  split
  · rename_i hnone
    constructor
    · intro _ uri huri
      rw [hnone] at huri
      cases huri
    · intro _
      exact onlyConfig_pure _
  · rename_i v hv
    rw [onlyConfig_validateUri]
    simp only [hv, Option.some.injEq]

/-- What the document must satisfy for its validation to raise nothing but `ConfigError`. -/
structure DeviceFine (data : Document) : Prop where
  version : Passes (checkDeviceKeys data) → h.VersionPrints data
  uri : h.ReachesUri data → h.UriSplits data

theorem onlyConfig_validateDevice : OnlyConfig (h.validateDevice data) ↔ h.DeviceFine data := by
  constructor
  · intro hd
    unfold validateDevice at hd
    -- each check that passes hands the property on to what follows it
    have hversion (u : Unit) (hkeys : checkDeviceKeys data = .ok u) := ((onlyConfig_bind _ _).mp hd).2 u hkeys
    constructor
    · rintro ⟨u, hkeys⟩
      exact (h.onlyConfig_version data).mp ((onlyConfig_bind _ _).mp (hversion u hkeys)).1
    · intro hreach
      obtain ⟨u, hkeys⟩ := hreach.keys
      obtain ⟨version, hv⟩ := hreach.version
      obtain ⟨name, hname⟩ := hreach.cameraName
      obtain ⟨fingerprint, hfingerprint⟩ := hreach.fingerprint
      obtain ⟨server, hserver⟩ := hreach.server
      obtain ⟨enabled, henabled⟩ := hreach.enabled
      have h1 := ((onlyConfig_bind _ _).mp (hversion u hkeys)).2 version hv
      have h2 := ((onlyConfig_bind _ _).mp h1).2 name hname
      have h3 := ((onlyConfig_bind _ _).mp h2).2 fingerprint hfingerprint
      have h4 := ((onlyConfig_bind _ _).mp h3).2 server hserver
      have h5 := ((onlyConfig_bind _ _).mp h4).2 enabled henabled
      exact (h.onlyConfig_uri data).mp ((onlyConfig_bind _ _).mp h5).1
  · intro hfine
    apply (onlyConfig_checkDeviceKeys data).bind
    intro u hkeys
    apply ((h.onlyConfig_version data).mpr (hfine.version ⟨u, hkeys⟩)).bind
    intro version hv
    apply (onlyConfig_scalar onlyConfig_validateCameraName _ _ _).bind
    intro name hname
    apply (onlyConfig_scalar (onlyConfig_expectStr _) _ _ _).bind
    intro fingerprint hfingerprint
    apply (onlyConfig_server data).bind
    intro server hserver
    apply (onlyConfig_entry onlyConfig_validateEnabled _ _ _).bind
    intro enabled henabled
    have hreach : h.ReachesUri data :=
      ⟨⟨u, hkeys⟩, ⟨version, hv⟩, ⟨name, hname⟩, ⟨fingerprint, hfingerprint⟩, ⟨server, hserver⟩, ⟨enabled, henabled⟩⟩
    apply ((h.onlyConfig_uri data).mpr (hfine.uri hreach)).bind
    intro uri _
    -- the checks behind the address only ever raise `ConfigError`
    apply (onlyConfig_entry (onlyConfig_expectStr _) _ _ _).bind
    intro clientId _
    apply (onlyConfig_entry (onlyConfig_expectStr _) _ _ _).bind
    intro caFile _
    apply (onlyConfig_entry (onlyConfig_validatePrefix _) _ _ _).bind
    intro discoveryPrefix _
    apply (onlyConfig_entry (onlyConfig_validatePrefix _) _ _ _).bind
    intro topicPrefix _
    apply (onlyConfig_entry (onlyConfig_expectStr _) _ _ _).bind
    intro hostname _
    apply (onlyConfig_entry onlyConfig_validateNtpServers _ _ _).bind
    intro ntpServers _
    exact (onlyConfig_validateMeta data).bind fun _ _ => onlyConfig_pure _

theorem onlyConfig_validateSecrets :
    OnlyConfig (h.validateSecrets data) ↔ h.VersionPrints data := by
  unfold validateSecrets
  rw [onlyConfig_bind, onlyConfig_version]
  constructor
  · intro hs
    exact hs.1
  · intro hprints
    refine ⟨hprints, fun _ _ => ?_⟩
    apply (onlyConfig_checkSecretsKeys data).bind
    intro _ _
    apply (onlyConfig_secret data _ _).bind
    intro token _
    apply (onlyConfig_secret data _ _).bind
    intro username _
    apply (onlyConfig_secret data _ _).bind
    intro password _
    apply (onlyConfig_secret data _ _).bind
    intro psk _
    exact (onlyConfig_secret data _ _).bind fun _ _ => onlyConfig_pure _

/-- `tomllib` raises nothing but its own error on the text, and what it returns has the property. -/
def TextFine (fine : Document → Prop) (text : String) : Prop :=
  match h.loads text with
  | .table data => fine data
  | .decodeError _ => True
  | .valueError => False
  | .recursionError => False

theorem onlyConfig_load_bind {α : Type} {validate : Document → Checked α} {fine : Document → Prop}
    (hvalidate : ∀ data, OnlyConfig (validate data) ↔ fine data) (text : String) :
    OnlyConfig (h.load text >>= validate) ↔ h.TextFine fine text := by
  unfold TextFine load
  cases h.loads text with
  | table data => exact hvalidate data
  | decodeError message =>
    constructor
    · intro _
      trivial
    · intro _
      exact (onlyConfig_error_bind _ _).mpr ⟨_, _, rfl⟩
  | valueError =>
    rw [onlyConfig_error_bind]
    simp only [reduceCtorEq, exists_false]
  | recursionError =>
    rw [onlyConfig_error_bind]
    simp only [reduceCtorEq, exists_false]

end Host

/-- The file can be read, it is UTF-8, and the text has the property. A file that is not there is fine. -/
def FileRead.Fine (fine : String → Prop) : FileRead → Prop
  | .missing => True
  | .failed => False
  | .bytes content => ∃ s, String.fromUTF8? content = some s ∧ fine (String.ofList (universalNewlines s.toList))

theorem onlyConfig_text_bind {α : Type} {parse : String → Checked α} {fine : String → Prop}
    (hparse : ∀ text, OnlyConfig (parse text) ↔ fine text) (default : α) (file : FileRead) :
    OnlyConfig (file.text >>= fun found => match found with
      | none => pure default
      | some text => parse text) ↔ file.Fine fine := by
  unfold FileRead.text FileRead.Fine
  cases file with
  | missing => exact ⟨fun _ => trivial, fun _ => onlyConfig_pure default⟩
  | failed =>
    rw [onlyConfig_error_bind]
    simp only [reduceCtorEq, exists_false]
  | bytes content =>
    cases hs : String.fromUTF8? content with
    | none =>
      simp only [hs, onlyConfig_error_bind, reduceCtorEq, exists_false, false_and]
    | some s =>
      simp only [hs, Option.some.injEq, exists_eq_left']
      exact hparse _

theorem passes_orOnConfigError {α : Type} (x : Checked α) (default : α) :
    Passes (orOnConfigError x default) ↔ OnlyConfig x := by
  cases x with
  | ok a => exact ⟨fun _ => onlyConfig_ok a, fun _ => ⟨a, rfl⟩⟩
  | error e =>
    rw [onlyConfig_error]
    cases e with
    | config kind text => exact ⟨fun _ => ⟨kind, text, rfl⟩, fun _ => ⟨default, rfl⟩⟩
    | _ => simp [orOnConfigError, Passes]

theorem passes_bind {α β : Type} {x : Checked α} {f : α → Checked β} {p : Prop} (hf : ∀ a, Passes (f a) ↔ p) :
    Passes (x >>= f) ↔ Passes x ∧ p := by
  cases x with
  | ok a =>
    rw [← hf a]
    exact ⟨fun hp => ⟨⟨a, rfl⟩, hp⟩, fun hp => hp.2⟩
  | error e =>
    constructor
    · rintro ⟨b, hb⟩
      cases hb
    · rintro ⟨⟨a, ha⟩, _⟩
      cases ha

theorem passes_pure {α : Type} (a : α) : Passes (pure a : Checked α) ↔ True := ⟨fun _ => trivial, fun _ => ⟨a, rfl⟩⟩

namespace Host

variable (h : Host)

theorem onlyConfig_parseDevice (text : String) : OnlyConfig (h.parseDevice text) ↔ h.TextFine h.DeviceFine text :=
  h.onlyConfig_load_bind h.onlyConfig_validateDevice text

theorem onlyConfig_parseSecrets (text : String) : OnlyConfig (h.parseSecrets text) ↔ h.TextFine h.VersionPrints text :=
  h.onlyConfig_load_bind h.onlyConfig_validateSecrets text

theorem onlyConfig_loadDevice (file : FileRead) :
    OnlyConfig (h.loadDevice file) ↔ file.Fine (h.TextFine h.DeviceFine) :=
  onlyConfig_text_bind h.onlyConfig_parseDevice defaultDevice file

theorem onlyConfig_loadSecrets (file : FileRead) :
    OnlyConfig (h.loadSecrets file) ↔ file.Fine (h.TextFine h.VersionPrints) :=
  onlyConfig_text_bind h.onlyConfig_parseSecrets {} file

theorem passes_deviceValid (isfile : Bool) (device : FileRead) :
    Passes (h.deviceValid isfile device) ↔ (isfile = true → OnlyConfig (h.loadDevice device)) := by
  unfold deviceValid
  split_ifs with hfile
  · have hdevice : OnlyConfig (do let _ ← h.loadDevice device; pure true) ↔ OnlyConfig (h.loadDevice device) := by
      rw [onlyConfig_bind]
      exact ⟨fun hd => hd.1, fun hd => ⟨hd, fun _ _ => onlyConfig_pure true⟩⟩
    rw [passes_orOnConfigError, hdevice]
    exact ⟨fun hd _ => hd, fun hd => hd hfile⟩
  · rw [passes_pure]
    exact ⟨fun _ hf => absurd hf hfile, fun _ => trivial⟩

theorem passes_observeFacts (printableChar : Char → Bool) (storageReady isfile : Bool) (device secrets : FileRead)
    (cameraValidated cameraRunning : Bool) (recoveryReason : String) :
    Passes (h.observeFacts printableChar storageReady isfile device secrets cameraValidated cameraRunning
        recoveryReason) ↔
      (isfile = true → OnlyConfig (h.loadDevice device)) ∧ OnlyConfig (h.loadSecrets secrets) := by
  have hrest := passes_orOnConfigError (h.loadSecrets secrets) {}
  unfold observeFacts
  rw [← passes_deviceValid, ← hrest]
  apply passes_bind
  intro deviceValid
  rw [passes_bind fun _ => passes_pure _, and_true]

/-- Reading the files raises `ConfigError` and nothing else exactly when they can be read, are UTF-8, and hold
no value that the standard library raises on; and then, and only then, the facts are observed without an
exception. -/
theorem configErrors_only_iff :
    (∀ text, OnlyConfig (h.parseDevice text) ↔ h.TextFine h.DeviceFine text) ∧
    (∀ text, OnlyConfig (h.parseSecrets text) ↔ h.TextFine h.VersionPrints text) ∧
    (∀ file, OnlyConfig (h.loadDevice file) ↔ file.Fine (h.TextFine h.DeviceFine)) ∧
    (∀ file, OnlyConfig (h.loadSecrets file) ↔ file.Fine (h.TextFine h.VersionPrints)) ∧
    ∀ (printableChar : Char → Bool) (storageReady isfile : Bool) (device secrets : FileRead)
      (cameraValidated cameraRunning : Bool) (recoveryReason : String),
      Passes (h.observeFacts printableChar storageReady isfile device secrets cameraValidated cameraRunning
          recoveryReason) ↔
        (isfile = true → device.Fine (h.TextFine h.DeviceFine)) ∧ secrets.Fine (h.TextFine h.VersionPrints) := by
  refine ⟨h.onlyConfig_parseDevice, h.onlyConfig_parseSecrets, h.onlyConfig_loadDevice, h.onlyConfig_loadSecrets, ?_⟩
  intro printableChar storageReady isfile device secrets cameraValidated cameraRunning recoveryReason
  rw [passes_observeFacts, onlyConfig_loadDevice, onlyConfig_loadSecrets]

end Host

/-- A standard library whose TOML reader is the line-based one and for which every address is one broker's. -/
def lineHost : Host where
  loads text :=
    match TomlText.read text with
    | some data => .table data
    | none => .decodeError "refused"
  urlsplit _ := some ⟨"mqtts", "broker.example:8883", none, none, some (some 8883)⟩

/-- One byte that is not UTF-8 in the device file: the decoding error passes `load_device` and the handler of
`observe_facts`. -/
theorem strayByte_raises :
    lineHost.loadDevice (.bytes ⟨#[0xFF]⟩) = .error .unicodeDecodeError ∧
    lineHost.observeFacts (fun _ => true) true true (.bytes ⟨#[0xFF]⟩) .missing true false "" =
      .error .unicodeDecodeError := by
  have hdecode : String.fromUTF8? ⟨#[0xFF]⟩ = none := by decide +kernel
  have hload : lineHost.loadDevice (.bytes ⟨#[0xFF]⟩) = .error .unicodeDecodeError := by
    simp only [Host.loadDevice, FileRead.text, hdecode]
    rfl
  refine ⟨hload, ?_⟩
  have hvalid : lineHost.deviceValid true (.bytes ⟨#[0xFF]⟩) = .error .unicodeDecodeError := by
    simp only [Host.deviceValid, if_true, hload]
    rfl
  rw [Host.observeFacts, hvalid]
  rfl

end PiBuddyCam.Config
