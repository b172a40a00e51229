import PiBuddyCam.AdminTlsHostname
import PiBuddyCam.ConfigDeviceText
import PiBuddyCam.PyUrl

/-! `MqttConfig.from_documents` of `app/mqtt_service.py` with the checks of `app/mqtt_topics.py`, beside those of the
configuration schema: which accepted documents give an enabled configuration. -/
namespace PiBuddyCam.Mqtt

open Config (Device Secrets)

def toUrl (s : PyUrl.Split) : Config.Url where
  scheme := String.ofList s.scheme
  netloc := String.ofList s.netloc
  username := s.username.map String.ofList
  password := s.password.map String.ofList
  port := s.port.map (Option.map Int.ofNat)

def schema (k : PyUrl.Checks) (loads : String → Config.Loaded) : Config.Host :=
  { loads, urlsplit := fun url => (PyUrl.urlsplit k url).map toUrl }

/-- What the service takes from outside: the checks of `urlsplit`, `uuid5` in the URL namespace, and the files. -/
structure Env where
  checks : PyUrl.Checks
  uuid5 : String → Fin (2^128)
  pathExists : String → Bool
  isfile : String → Bool

/-- The ways in which `validate_prefix` raises, with the name it is given. -/
inductive PrefixError where
  | empty (name : String)
  | tooLong (name : String)
  | characters (name value : String)
  deriving DecidableEq

def prefixMax : ℕ := 128

def segmentChar (c : Char) : Bool := c.isAlphanum || c = '_' || c = '-'

def segmented (cs : List Char) : Bool :=
  ((PyText.beforeDollar cs).splitOn '/').all fun segment => segment ≠ [] && segment.all segmentChar

def validatePrefix (name value : String) : Except PrefixError String :=
  if value = "" then .error (.empty name)
  else if prefixMax < value.toList.length then .error (.tooLong name)
  else if segmented value.toList then .ok value
  else .error (.characters name value)

def validPrefix (name value : String) : Bool := (validatePrefix name value).isOk

def validUri (k : PyUrl.Checks) (uri : String) : Bool :=
  uri ≠ "" &&
    match PyUrl.urlsplit k uri with
    | none => false
    | some parts =>
      (parts.scheme = "mqtt".toList || parts.scheme = "mqtts".toList) && parts.hostname ≠ [] &&
        (parts.username.isNone && parts.password.isNone) &&
        (parts.path = [] && parts.query = [] && parts.fragment = []) &&
        match parts.port with
        | none => false
        | some none => true
        | some (some port) => 1 ≤ port && port ≤ 65535

def validCaFile (env : Env) (path : String) : Bool :=
  path = "" ||
    (!path.toList.any (fun c => c = '\x00' || c = '\n' || c = '\r') && path.toList.head? = some '/' &&
      (!env.pathExists path || env.isfile path))

/-- `re.sub(r'[^a-z0-9]+', '-', text)`. `skip` says that the run's hyphen is already written. -/
def dashes (skip : Bool) : List Char → List Char
  | [] => []
  | c :: cs =>
    if AdminTls.isAlnum c then c :: dashes false cs
    else if skip then dashes true cs else '-' :: dashes true cs

def squeeze (skip : Bool) : List Char → List Char
  | [] => []
  | c :: cs =>
    if c = '-' then if skip then squeeze true cs else c :: squeeze true cs
    else c :: squeeze false cs

def sanitizeDeviceId (text : String) : String :=
  String.ofList (AdminTls.stripHyphens (squeeze false (dashes false (AdminTls.folded text))))

def uuidHex (n : Fin (2^128)) : String :=
  String.ofList (List.replicate (32 - (Nat.toDigits 16 n).length) '0' ++ Nat.toDigits 16 n)

def deriveDeviceId (env : Env) (seed : String) : Except String String :=
  if PyText.strip seed = "" then .error "device seed must be a non-empty string"
  else .ok (uuidHex (env.uuid5 ("pibuddycam:" ++ seed)))

def deviceId (env : Env) (seed : String) : Except String String :=
  if PyText.strip seed = "" then .error "device seed must be a non-empty string"
  else (deriveDeviceId env seed).map sanitizeDeviceId

structure MqttConfig where
  enabled : Bool := false
  uri : String := ""
  clientId : String := ""
  discoveryPrefix : String := "homeassistant"
  topicPrefix : String := "pibuddycam"
  caFile : String := ""
  username : String := ""
  password : String := ""
  deviceId : String := ""
  keepalive : ℕ := 60

def fromDocuments (env : Env) (device : Device) (secrets : Secrets) (deviceSeed : Option String) : MqttConfig :=
  let discoveryPrefix := if device.discoveryPrefix = "" then "homeassistant" else device.discoveryPrefix
  let topicPrefix := if device.topicPrefix = "" then "pibuddycam" else device.topicPrefix
  let seed := if PyText.strip (deviceSeed.getD "") = "" then device.fingerprint else deviceSeed.getD ""
  let id := if PyText.strip seed = "" then "" else ((deviceId env seed).toOption.getD "")
  let valid := validUri env.checks device.uri && validCaFile env device.caFile && id ≠ "" &&
    validPrefix "discovery_prefix" discoveryPrefix && validPrefix "topic_prefix" topicPrefix
  { enabled := device.enabled && valid
    uri := device.uri
    clientId := device.clientId
    discoveryPrefix, topicPrefix
    caFile := device.caFile
    username := secrets.username.getD ""
    password := secrets.password.getD ""
    deviceId := id }

section Identity

theorem sanitizeDeviceId_alnum {cs : List Char} (h : ∀ c ∈ cs, AdminTls.isAlnum c = true) :
    sanitizeDeviceId (String.ofList cs) = String.ofList cs := by
  have hhyphen {c : Char} (hc : c ∈ cs) : c ≠ '-' := AdminTls.ne_hyphen_of_isAlnum (h c hc)
  have hfolded : AdminTls.folded (String.ofList cs) = cs :=
    AdminTls.folded_ofList fun c hc => AdminTls.isLabelChar_of_isAlnum (h c hc)
  have hdashes (ds : List Char) (hds : ∀ c ∈ ds, AdminTls.isAlnum c = true) : dashes false ds = ds := by
    induction ds with
    | nil => rfl
    | cons c ds ih =>
      obtain ⟨hc, hds⟩ := List.forall_mem_cons.mp hds
      rw [dashes, if_pos hc, ih hds]
  have hsqueeze (ds : List Char) (hds : ∀ c ∈ ds, AdminTls.isAlnum c = true) : squeeze false ds = ds := by
    induction ds with
    | nil => rfl
    | cons c ds ih =>
      obtain ⟨hc, hds⟩ := List.forall_mem_cons.mp hds
      rw [squeeze, if_neg (AdminTls.ne_hyphen_of_isAlnum hc), ih hds]
  rw [sanitizeDeviceId, hfolded, hdashes cs h, hsqueeze cs h, AdminTls.stripHyphens_eq_self]
  · exact fun c hc => hhyphen (List.mem_of_head? hc)
  · exact fun c hc => hhyphen (List.mem_of_getLast? hc)

theorem uuidHex_alnum (n : Fin (2^128)) : ∀ c ∈ (uuidHex n).toList, AdminTls.isAlnum c = true := by
  have hdigit : ∀ k < 16, AdminTls.isAlnum (Nat.digitChar k) = true := by decide
  intro c hc
  rw [uuidHex, String.toList_ofList, List.mem_append] at hc
  rcases hc with hc | hc
  · rw [(List.mem_replicate.mp hc).2]
    decide
  · generalize n.val = m at hc
    induction m using Nat.strongRecOn with
    | ind m ih =>
      rw [Nat.toDigits_eq_if (by omega)] at hc
      split_ifs at hc with hm
      · rw [List.mem_singleton.mp hc]
        exact hdigit m hm
      · rcases List.mem_append.mp hc with hc | hc
        · exact ih (m/16) (by omega) hc
        · rw [List.mem_singleton.mp hc]
          exact hdigit _ (Nat.mod_lt m (by omega))

theorem deviceId_ne_empty (env : Env) {seed : String} (hseed : PyText.strip seed ≠ "") :
    (deviceId env seed).toOption.getD "" ≠ "" := by
  obtain ⟨n, hn⟩ : ∃ n, n = env.uuid5 ("pibuddycam:" ++ seed) := ⟨_, rfl⟩
  have hid : deviceId env seed = .ok (uuidHex n) := by
    have hsame := sanitizeDeviceId_alnum (uuidHex_alnum n)
    rw [String.ofList_toList] at hsame
    rw [deviceId, if_neg hseed, deriveDeviceId, if_neg hseed, ← hn]
    exact congrArg Except.ok hsame
  rw [hid]
  show uuidHex n ≠ ""
  intro hempty
  have hlist := congrArg String.toList hempty
  rw [uuidHex, String.toList_ofList] at hlist
  exact Nat.toDigits_ne_nil (List.append_eq_nil_iff.mp hlist).2

end Identity

section Agreement

variable {k : PyUrl.Checks} {loads : String → Config.Loaded}

theorem mem_segment {a : Char} {cs segment : List Char} (h : segment ∈ cs.splitOn a) : ∀ c ∈ segment, c ∈ cs ∧ c ≠ a := by
  induction cs generalizing segment with
  | nil =>
    rw [List.splitOn_nil, List.mem_singleton] at h
    rw [h]
    exact List.forall_mem_nil _
  | cons d cs ih =>
    rw [List.splitOn_cons_eq_if_modifyHead] at h
    have hlater {segment : List Char} (hmem : segment ∈ cs.splitOn a) : ∀ c ∈ segment, c ∈ d :: cs ∧ c ≠ a :=
      fun c hc => ⟨List.mem_cons_of_mem d (ih hmem c hc).1, (ih hmem c hc).2⟩
    split_ifs at h with hd
    · rcases List.mem_cons.mp h with rfl | h
      · exact List.forall_mem_nil _
      · exact hlater h
    · obtain ⟨first, rest, hsplit⟩ := List.exists_cons_of_ne_nil (List.splitOn_ne_nil a cs)
      rw [hsplit, List.modifyHead_cons] at h
      rcases List.mem_cons.mp h with rfl | h
      · have hne : d ≠ a := by simpa using hd
        have hfirst := hlater (hsplit ▸ List.mem_cons_self : first ∈ cs.splitOn a)
        exact List.forall_mem_cons.mpr ⟨⟨List.mem_cons_self, hne⟩, hfirst⟩
      · exact hlater (hsplit ▸ List.mem_cons_of_mem _ h)

structure Segments (value : String) : Prop where
  length : value.toList.length ≤ prefixMax
  nonempty : [] ∉ value.toList.splitOn '/'

/-- A prefix that the schema accepts is one for the topics when it has no empty segment and is not too long. -/
theorem validPrefix_iff {path value : String} (h : Config.validatePrefix path (.str value) = .ok value) (name : String) :
    value ≠ "" ∧ (validPrefix name value = true ↔ Segments value) := by
  have hchars : value ≠ "" ∧ value.toList.all Config.prefixChar = true := by
    by_contra hnot
    have hbad : value = "" ∨ (!value.toList.all Config.prefixChar) = true := by
      rw [not_and_or, not_not] at hnot
      simpa using hnot
    rw [Config.validatePrefix] at h
    replace h : (if value = "" ∨ (!value.toList.all Config.prefixChar) = true then _ else _ :
      Config.Checked String) = .ok value := h
    rw [if_pos hbad] at h
    cases h
  obtain ⟨hne, hall⟩ := hchars
  rw [List.all_eq_true] at hall
  have hdollar : PyText.beforeDollar value.toList = value.toList := by
    refine if_neg fun hlast => ?_
    exact absurd (hall '\n' (List.mem_of_getLast? hlast)) (by decide)
  have hsegment (segment : List Char) (hmem : segment ∈ value.toList.splitOn '/') : segment.all segmentChar = true := by
    refine List.all_eq_true.mpr fun c hc => ?_
    obtain ⟨hin, hslash⟩ := mem_segment hmem c hc
    have hchar := hall c hin
    simp only [Config.prefixChar, Bool.or_eq_true, decide_eq_true_eq] at hchar
    simp only [segmentChar, Bool.or_eq_true, decide_eq_true_eq]
    tauto
  have hmatch : segmented value.toList = true ↔ [] ∉ value.toList.splitOn '/' := by
    rw [segmented, hdollar, List.all_eq_true]
    constructor
    · intro hnonempty hmem
      exact absurd (hnonempty [] hmem) (by decide)
    · intro hnone segment hmem
      have hnil : segment ≠ [] := fun h => hnone (h ▸ hmem)
      simp [hnil, hsegment segment hmem]
  refine ⟨hne, ?_⟩
  unfold validPrefix validatePrefix
  rw [if_neg hne]
  split_ifs with hlong hseg
  · exact ⟨nofun, fun hs => absurd hs.length (by omega)⟩
  · exact ⟨fun _ => ⟨by omega, hmatch.mp hseg⟩, fun _ => rfl⟩
  · exact ⟨nofun, fun hs => absurd (hmatch.mpr hs.nonempty) hseg⟩

/-- A host, and nothing behind the authority. -/
structure Plain (parts : PyUrl.Split) : Prop where
  hostname : parts.hostname ≠ []
  path : parts.path = []
  query : parts.query = []
  fragment : parts.fragment = []

theorem parts_of_validateUri {uri : String} (h : (schema k loads).validateUri (.str uri) = .ok uri) :
    ∃ parts, PyUrl.urlsplit k uri = some parts ∧ (parts.scheme = "mqtt".toList ∨ parts.scheme = "mqtts".toList) ∧
      parts.username = none ∧ parts.password = none ∧
      ∃ port, parts.port = some port ∧ ∀ n, port = some n → 1 ≤ n ∧ n ≤ 65535 := by
  unfold Config.Host.validateUri at h
  obtain ⟨s, hs, h⟩ := Except.exists_of_bind_eq_ok h
  cases hs
  split at h
  · cases h
  · rename_i url hurl
    obtain ⟨parts, hparts, rfl⟩ := Option.map_eq_some_iff.mp hurl
    split_ifs at h with hscheme hcredentials
    · cases h
    · cases h
    simp only [toUrl, not_or, not_and_or, not_not, Option.isSome_map, Bool.not_eq_true, Option.isSome_eq_false_iff,
      Option.isNone_iff_eq_none] at hscheme hcredentials
    refine ⟨parts, hparts, ?_, hcredentials.1, hcredentials.2, ?_⟩
    · refine hscheme.1.imp (fun hmqtt => ?_) fun hmqtts => ?_
      · rw [← hmqtt, String.toList_ofList]
      · rw [← hmqtts, String.toList_ofList]
    · cases hport : parts.port with
      | none =>
        simp only [toUrl, hport, Option.map_none] at h
        cases h
      | some port =>
        refine ⟨port, rfl, ?_⟩
        rintro n rfl
        simp only [toUrl, hport, Option.map_some] at h
        split_ifs at h with hrange
        · simp only [Int.ofNat_eq_natCast] at hrange
          omega
        · cases h

/-- An address that the schema accepts is one for the service when there is a host in it and nothing behind. -/
theorem validUri_iff {uri : String} (h : (schema k loads).validateUri (.str uri) = .ok uri) :
    validUri k uri = true ↔ ∃ parts, PyUrl.urlsplit k uri = some parts ∧ Plain parts := by
  obtain ⟨parts, hparts, hscheme, husername, hpassword, port, hport, hrange⟩ := parts_of_validateUri h
  have hne : uri ≠ "" := by
    rintro rfl
    have hempty : PyUrl.urlsplit k "" = some ⟨[], [], [], [], []⟩ := rfl
    rw [hempty] at hparts
    cases hparts
    exact absurd hscheme (by decide)
  have hvalid : (match parts.port with
      | none => false
      | some none => true
      | some (some port) => decide (1 ≤ port) && decide (port ≤ 65535)) = true := by
    rw [hport]
    cases port with
    | none => rfl
    | some n =>
      obtain ⟨hlow, hhigh⟩ := hrange n rfl
      simp [hlow, hhigh]
  have hplain : validUri k uri = true ↔ Plain parts := by
    rw [validUri, hparts]
    dsimp only
    rw [hvalid, husername, hpassword]
    constructor
    · intro hall
      simp only [Bool.and_eq_true, decide_eq_true_eq] at hall
      exact ⟨hall.2.1.1.1.2, hall.2.1.2.1.1, hall.2.1.2.1.2, hall.2.1.2.2⟩
    · intro hp
      have hscheme : (decide (parts.scheme = "mqtt".toList) || decide (parts.scheme = "mqtts".toList)) = true := by
        simpa only [Bool.or_eq_true, decide_eq_true_eq] using hscheme
      rw [hscheme]
      simp [hne, hp.hostname, hp.path, hp.query, hp.fragment]
  rw [hplain, hparts]
  constructor
  · exact fun hp => ⟨parts, rfl, hp⟩
  · rintro ⟨other, hother, hp⟩
    rwa [Option.some.inj hother]

structure Suits (k : PyUrl.Checks) (device : Device) : Prop where
  uri : ∃ parts, PyUrl.urlsplit k device.uri = some parts ∧ Plain parts
  discoveryPrefix : Segments device.discoveryPrefix
  topicPrefix : Segments device.topicPrefix

/-- Of the documents that the schema accepts, with MQTT enabled, a fingerprint and no CA file, those give an enabled
configuration, whatever the secrets are, whose address has a host and nothing behind the authority, and whose two
prefixes have no empty segment and at most 128 characters. -/
theorem accepted_enabled_iff (env : Env) (loads : String → Config.Loaded) {data : TomlText.Document} {device : Device}
    (hdevice : (schema env.checks loads).validateDevice data = .ok device) (henabled : device.enabled = true)
    (hfingerprint : PyText.strip device.fingerprint ≠ "") (hca : device.caFile = "") (secrets : Secrets)
    (deviceSeed : Option String) :
    (fromDocuments env device secrets deviceSeed).enabled = true ↔ Suits env.checks device := by
  have hurl : (schema env.checks loads).urlsplit Config.defaultDevice.uri =
      some ⟨"mqtts", "broker.example:8883", none, none, some (some 8883)⟩ := by
    rfl
  have haccepted := Config.Host.accepted_of_validateDevice hurl hdevice
  obtain ⟨hdiscovery, hdiscoveryValid⟩ := validPrefix_iff haccepted.discoveryPrefix "discovery_prefix"
  obtain ⟨htopic, htopicValid⟩ := validPrefix_iff haccepted.topicPrefix "topic_prefix"
  have huri := validUri_iff haccepted.uri
  -- the given seed or the fingerprint
  obtain ⟨seed, hseed⟩ : ∃ seed, seed =
      if PyText.strip (deviceSeed.getD "") = "" then device.fingerprint else deviceSeed.getD "" := ⟨_, rfl⟩
  have hstrip : PyText.strip seed ≠ "" := by
    rw [hseed]
    split_ifs with hblank
    · exact hfingerprint
    · exact hblank
  have hid := deviceId_ne_empty env hstrip
  have hresult : (fromDocuments env device secrets deviceSeed).enabled =
      (validUri env.checks device.uri && validPrefix "discovery_prefix" device.discoveryPrefix &&
        validPrefix "topic_prefix" device.topicPrefix) := by
    dsimp only [fromDocuments]
    rw [← hseed, henabled, hca, if_neg hdiscovery, if_neg htopic, if_neg hstrip]
    simp [validCaFile, hid]
  rw [hresult, Bool.and_eq_true, Bool.and_eq_true, huri, hdiscoveryValid, htopicValid]
  exact ⟨fun h => ⟨h.1.1, h.1.2, h.2⟩, fun h => ⟨⟨h.uri, h.discoveryPrefix⟩, h.topicPrefix⟩⟩

def sample : Device := { enabled := true, fingerprint := "b827eb1a2b3c" }

def sampleEnv : Env := ⟨⟨fun _ => false, fun _ => false⟩, fun _ => 0x1a2b, fun _ => false, fun _ => false⟩

def sampleSchema : Config.Host := schema sampleEnv.checks fun _ => .valueError

theorem sample_accepted {uri discoveryPrefix topicPrefix : String} (huri : sampleSchema.validateUri (.str uri) = .ok uri)
    (hdiscovery : Config.validatePrefix "mqtt.discovery_prefix" (.str discoveryPrefix) = .ok discoveryPrefix)
    (htopic : Config.validatePrefix "mqtt.topic_prefix" (.str topicPrefix) = .ok topicPrefix) :
    sampleSchema.validateDevice { sample with uri, discoveryPrefix, topicPrefix }.document =
      .ok { sample with uri, discoveryPrefix, topicPrefix } := by
  have hdefault := Config.Host.accepted_default (h := sampleSchema) (by rfl)
  exact sampleSchema.validateDevice_document ⟨hdefault.version, hdefault.cameraName, hdefault.server, huri, hdiscovery,
    htopic, hdefault.ntpServers⟩

theorem sample_enabled : sampleSchema.validateDevice sample.document = .ok sample ∧
    (fromDocuments sampleEnv sample {} none).enabled = true := by
  have haccepted : sampleSchema.validateDevice sample.document = .ok sample :=
    sample_accepted (by rfl) (by rfl) (by rfl)
  have hsuits : Suits sampleEnv.checks sample :=
    ⟨⟨_, rfl, by decide, rfl, rfl, rfl⟩, ⟨by decide, by decide⟩, ⟨by decide, by decide⟩⟩
  exact ⟨haccepted, (accepted_enabled_iff sampleEnv _ haccepted rfl (by decide +kernel) rfl {} none).mpr hsuits⟩

def LeftOff (device : Device) : Prop :=
  sampleSchema.validateDevice device.document = .ok device ∧ (fromDocuments sampleEnv device {} none).enabled = false

/-- A prefix with a separator at its end, an address with a path, and one with a port and no host. -/
theorem accepted_left_off :
    LeftOff { sample with topicPrefix := "home/" } ∧ LeftOff { sample with uri := "mqtt://broker.local/" } ∧
      LeftOff { sample with uri := "mqtt://:1883" } := by
  refine ⟨⟨?_, by decide +kernel⟩, ⟨?_, by decide +kernel⟩, ⟨?_, by decide +kernel⟩⟩
  · exact sample_accepted (by rfl) (by rfl) (by rfl)
  · exact sample_accepted (by rfl) (by rfl) (by rfl)
  · exact sample_accepted (by rfl) (by rfl) (by rfl)

end Agreement

end PiBuddyCam.Mqtt
