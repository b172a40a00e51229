import PiBuddyCam.Provisioning
import PiBuddyCam.TomlText

/-! `config_schema.py`: the device document and the secrets document, how they are validated, loaded
and written; and the facts that `provisioning.observe_facts` takes from the two files. -/
namespace PiBuddyCam.Config

open TomlText

/-- The classes under `ConfigError`. -/
inductive ErrorKind where
  | schemaTooNew | unknownKey | validation
  deriving DecidableEq

inductive Raised where
  | config (kind : ErrorKind) (text : String)
  | valueError
  | unicodeDecodeError
  | recursionError
  | osError
  deriving DecidableEq

abbrev Checked := Except Raised

section Checks

variable {α : Type}

def invalid (text : String) : Checked α := .error (.config .validation text)

def unknown (text : String) : Checked α := .error (.config .unknownKey text)

def entry (table : OrderedDict String Value) (key : String) (check : Value → Checked α) (default : α) : Checked α :=
  match table.get? key with
  | none => pure default
  | some value => check value

def scalar (data : Document) (key : String) (check : Value → Checked α) (default : α) : Checked α :=
  match data.get? key with
  | none => pure default
  | some (.value value) => check value
  | some (.table _) => check .table

end Checks

def tableOf (data : Document) (name : String) : OrderedDict String Value :=
  match data.get? name with
  | some (.table entries) => entries
  | _ => .empty

def deviceScalars : List String := ["schema_version", "camera_name", "fingerprint"]

def deviceTables : List (String × List String) :=
  [("prusa", ["server"]),
    ("mqtt", ["enabled", "uri", "client_id", "discovery_prefix", "topic_prefix", "ca_file"]),
    ("admin", ["hostname"]), ("network", ["ntp_servers"])]

def secretTables : List (String × List String) :=
  [("prusa", ["token"]), ("mqtt", ["username", "password"]), ("wifi", ["psk"]), ("admin", ["password_hash"])]

/-- Every key below `key` is an allowed one; `document` is the word for the document. -/
def checkSubkeys (document key : String) (allowed subs : List String) : Checked Unit :=
  subs.forM fun sub =>
    if sub ∈ allowed then pure () else unknown ("unknown " ++ document ++ " key '" ++ key ++ "." ++ sub ++ "'")

def checkDeviceKey (e : String × Item) : Checked Unit :=
  match deviceTables.lookup e.1, e.2 with
  | some allowed, .table entries => checkSubkeys "device" e.1 allowed entries.keys
  | some _, .value _ => invalid (e.1 ++ " must be a table")
  | none, item =>
    if e.1 = "meta" then
      match item with
      | .table _ => pure ()
      | .value _ => invalid "meta must be a table"
    else if e.1 ∈ deviceScalars then pure ()
    else unknown ("unknown device key '" ++ e.1 ++ "'")

def checkDeviceKeys (data : Document) : Checked Unit := data.entries.forM checkDeviceKey

def checkSecretsKey (e : String × Item) : Checked Unit :=
  if e.1 = "schema_version" then pure ()
  else match secretTables.lookup e.1, e.2 with
    | none, _ => unknown ("unknown secrets key '" ++ e.1 ++ "'")
    | some _, .value _ => invalid (e.1 ++ " must be a table")
    | some allowed, .table entries => checkSubkeys "secrets" e.1 allowed entries.keys

def checkSecretsKeys (data : Document) : Checked Unit := data.entries.forM checkSecretsKey

def expectStr (path : String) : Value → Checked String
  | .str s => pure s
  | _ => invalid (path ++ " must be a string")

def legacyPrusaServers : List String := ["webcam.connect.prusa3d.com", "camera-service-webcam.prusa3d.com"]

def defaultPrusaServer : String := "connect.prusa3d.com"

def normalizePrusaServer (value : String) : String :=
  if (PyText.strip value).toLower ∈ legacyPrusaServers then defaultPrusaServer else value

def validateCameraName (value : Value) : Checked String := do
  let name := PyText.strip (← expectStr "camera_name" value)
  if name = "" then invalid "camera_name must not be empty"
  else if 64 < name.length then invalid "camera_name must be at most 64 characters"
  else pure name

def prefixChar (c : Char) : Bool := c.isAlphanum || c = '_' || c = '/' || c = '-'

def validatePrefix (path : String) (value : Value) : Checked String := do
  let value ← expectStr path value
  if value = "" ∨ !value.toList.all prefixChar then
    invalid (path ++ " must be non-empty and match [A-Za-z0-9_/-]+")
  else pure value

def validateEnabled : Value → Checked Bool
  | .bool b => pure b
  | _ => invalid "mqtt.enabled must be a boolean"

/-- A label of a host name: at most 63 letters, digits and hyphens, no hyphen at an end. -/
def ntpLabel (cs : List Char) : Bool :=
  cs ≠ [] && cs.length ≤ 63 && cs.all (fun c => c.isAlphanum || c = '-') && cs.head? ≠ some '-' &&
    cs.getLast? ≠ some '-'

def ntpHost (name : String) : Bool :=
  let cs := PyText.beforeDollar name.toList
  cs.length ≤ 253 && (cs.splitOn '.').all ntpLabel

def addServer (servers : List String) : Value → Checked (List String)
  | .str item =>
    let name := PyText.strip item
    if !ntpHost name then invalid "network.ntp_servers entry is not a hostname or IPv4 address"
    else pure (if name ∈ servers then servers else servers ++ [name])
  | _ => invalid "network.ntp_servers entries must be strings"

def validateNtpServers : Value → Checked (List String)
  | .array items =>
    if 3 < items.length then invalid "network.ntp_servers allows at most 3 entries"
    else items.foldlM addServer []
  | _ => invalid "network.ntp_servers must be a list"

def addMeta (d : OrderedDict String String) (e : String × Value) : Checked (OrderedDict String String) :=
  match e.2 with
  | .str s => pure (d.set e.1 s)
  | _ => invalid ("meta value for '" ++ e.1 ++ "' must be a string")

def validateMeta (data : Document) : Checked (Option (OrderedDict String String)) :=
  match data.get? "meta" with
  | none => pure none
  | some _ => do pure (some (← (tableOf data "meta").entries.foldlM addMeta .empty))

structure Device where
  schemaVersion : ℤ := 1
  cameraName : String := "Printer Camera"
  fingerprint : String := ""
  server : String := defaultPrusaServer
  enabled : Bool := false
  uri : String := "mqtts://broker.example:8883"
  clientId : String := ""
  discoveryPrefix : String := "homeassistant"
  topicPrefix : String := "pibuddycam"
  caFile : String := ""
  hostname : String := ""
  ntpServers : List String := []
  metaTable : Option (OrderedDict String String) := none

def defaultDevice : Device := {}

/-- A normalized secrets document: a section is there when one of its values is. -/
structure Secrets where
  token : Option String := none
  username : Option String := none
  password : Option String := none
  psk : Option String := none
  passwordHash : Option String := none
  deriving DecidableEq

/-- What `urlsplit` makes of an address. Reading `port` raises where that is `none`. -/
structure Url where
  scheme : String
  netloc : String
  username : Option String
  password : Option String
  port : Option (Option ℤ)

/-- How `tomllib.loads` ends. -/
inductive Loaded where
  | table (data : Document)
  | decodeError (message : String)
  | valueError
  | recursionError

/-- What the checks take from the standard library. -/
structure Host where
  loads : String → Loaded
  /-- `none` where `urlsplit` raises `ValueError`. -/
  urlsplit : String → Option Url
  /-- `sys.get_int_max_str_digits()`. -/
  maxDigits : ℕ := 4300

namespace Host

variable (h : Host)

def printable (n : ℤ) : Bool := h.maxDigits = 0 || n.natAbs < 10^h.maxDigits

/-- Building the message of `SchemaTooNewError` prints the version. -/
def tooNew {α : Type} (version : ℤ) : Checked α :=
  if h.printable version then
    .error (.config .schemaTooNew ("schema_version " ++ toString version ++ " is newer than supported schema 1"))
  else .error .valueError

def validateVersion : Value → Checked ℤ
  | .int version => if 1 < version then h.tooNew version else pure version
  | _ => invalid "schema_version must be an integer"

def validateUri (value : Value) : Checked String := do
  let value ← expectStr "mqtt.uri" value
  match h.urlsplit value with
  | none => .error .valueError
  | some parts =>
    if (parts.scheme ≠ "mqtt" ∧ parts.scheme ≠ "mqtts") ∨ parts.netloc = "" then
      invalid "mqtt.uri must use the 'mqtt' or 'mqtts' scheme"
    else if parts.username.isSome ∨ parts.password.isSome then
      invalid ("mqtt.uri must not embed credentials; store the MQTT username/password " ++
        "in the secrets document")
    else match parts.port with
      | none => invalid "mqtt.uri port must be between 1 and 65535"
      | some none => pure value
      | some (some port) =>
        if 1 ≤ port ∧ port ≤ 65535 then pure value
        else invalid "mqtt.uri port must be between 1 and 65535"

def validateDevice (data : Document) : Checked Device := do
  checkDeviceKeys data
  let schemaVersion ← scalar data "schema_version" h.validateVersion 1
  let cameraName ← scalar data "camera_name" validateCameraName defaultDevice.cameraName
  let fingerprint ← scalar data "fingerprint" (expectStr "fingerprint") defaultDevice.fingerprint
  let server ← entry (tableOf data "prusa") "server"
    (fun v => do pure (normalizePrusaServer (← expectStr "prusa.server" v))) defaultDevice.server
  let mqtt := tableOf data "mqtt"
  let enabled ← entry mqtt "enabled" validateEnabled defaultDevice.enabled
  let uri ← entry mqtt "uri" h.validateUri defaultDevice.uri
  let clientId ← entry mqtt "client_id" (expectStr "mqtt.client_id") defaultDevice.clientId
  let caFile ← entry mqtt "ca_file" (expectStr "mqtt.ca_file") defaultDevice.caFile
  let discoveryPrefix ← entry mqtt "discovery_prefix" (validatePrefix "mqtt.discovery_prefix")
    defaultDevice.discoveryPrefix
  let topicPrefix ← entry mqtt "topic_prefix" (validatePrefix "mqtt.topic_prefix") defaultDevice.topicPrefix
  let hostname ← entry (tableOf data "admin") "hostname" (expectStr "admin.hostname") defaultDevice.hostname
  let ntpServers ← entry (tableOf data "network") "ntp_servers" validateNtpServers defaultDevice.ntpServers
  let metaTable ← validateMeta data
  pure { schemaVersion, cameraName, fingerprint, server, enabled, uri, clientId, discoveryPrefix, topicPrefix,
         caFile, hostname, ntpServers, metaTable }

def secret (data : Document) (table key : String) : Checked (Option String) :=
  entry (tableOf data table) key (fun v => do pure (some (← expectStr (table ++ "." ++ key) v))) none

def validateSecrets (data : Document) : Checked Secrets := do
  let _ ← scalar data "schema_version" h.validateVersion 1
  checkSecretsKeys data
  let token ← secret data "prusa" "token"
  let username ← secret data "mqtt" "username"
  let password ← secret data "mqtt" "password"
  let psk ← secret data "wifi" "psk"
  let passwordHash ← secret data "admin" "password_hash"
  pure { token, username, password, psk, passwordHash }

def load (text : String) : Checked Document :=
  match h.loads text with
  | .table data => pure data
  | .decodeError message => invalid ("invalid TOML: " ++ message)
  | .valueError => .error .valueError
  | .recursionError => .error .recursionError

def parseDevice (text : String) : Checked Device := do h.validateDevice (← h.load text)

def parseSecrets (text : String) : Checked Secrets := do h.validateSecrets (← h.load text)

end Host

/-- A path as `open` finds it: no file, one that cannot be opened or read, or one with this content. -/
inductive FileRead where
  | missing
  | failed
  | bytes (content : ByteArray)

def universalNewlines : List Char → List Char
  | [] => []
  | [c] => [if c = '\r' then '\n' else c]
  | c :: d :: cs =>
    if c = '\r' then if d = '\n' then '\n' :: universalNewlines cs else '\n' :: universalNewlines (d :: cs)
    else c :: universalNewlines (d :: cs)

/-- `open(path, encoding='utf-8').read()`; `none` stands for `FileNotFoundError`. -/
def FileRead.text : FileRead → Checked (Option String)
  | .missing => pure none
  | .failed => .error .osError
  | .bytes content =>
    match String.fromUTF8? content with
    | none => .error .unicodeDecodeError
    | some s => pure (some (String.ofList (universalNewlines s.toList)))

namespace Host

variable (h : Host)

def loadDevice (file : FileRead) : Checked Device := do
  match ← file.text with
  | none => pure defaultDevice
  | some text => h.parseDevice text

def loadSecrets (file : FileRead) : Checked Secrets := do
  match ← file.text with
  | none => pure {}
  | some text => h.parseSecrets text

end Host

def orOnConfigError {α : Type} (x : Checked α) (default : α) : Checked α :=
  match x with
  | .error (.config _ _) => pure default
  | x => x

def isSet (value : Option String) : Bool := value.any fun s => PyText.strip s ≠ ""

/-- The device part of `observe_facts`; `isfile` says whether the path is that of a regular file. -/
def Host.deviceValid (h : Host) (isfile : Bool) (device : FileRead) : Checked Bool :=
  if isfile then orOnConfigError (do let _ ← h.loadDevice device; pure true) false else pure false

/-- `observe_facts`: `storageReady` is what it finds of the storage, and `printableChar` is
`str.isprintable`. -/
def Host.observeFacts (h : Host) (printableChar : Char → Bool) (storageReady isfile : Bool) (device secrets : FileRead)
    (cameraValidated cameraRunning : Bool) (recoveryReason : String) : Checked Provisioning.Facts := do
  let deviceValid ← h.deviceValid isfile device
  let secrets ← orOnConfigError (h.loadSecrets secrets) {}
  pure { storageReady, cameraValidated
         adminPasswordSet := isSet secrets.passwordHash
         deviceValid
         prusaTokenSet := isSet secrets.token
         cameraRunning
         recoveryReason := Provisioning.sanitizeReason printableChar recoveryReason }

end PiBuddyCam.Config
