import Mathlib.Data.Finset.Basic
import PiBuddyCam.Provisioning

/-! `setup_wizard.py`: what a wizard session holds, what it asks of the device it sets up,
and the documents it writes. -/
namespace PiBuddyCam.Setup

open Provisioning

inductive Step where
  | status | imagerPrefill | wifi | prusaToken | fingerprint | adminPassword | mqtt | summary | persist | finish
  deriving DecidableEq

def Step.name : Step → String
  | .status => "status"
  | .imagerPrefill => "imager_prefill"
  | .wifi => "wifi"
  | .prusaToken => "prusa_token"
  | .fingerprint => "fingerprint"
  | .adminPassword => "admin_password"
  | .mqtt => "mqtt"
  | .summary => "summary"
  | .persist => "persist"
  | .finish => "finish"

def stepOrder : List Step :=
  [.status, .imagerPrefill, .wifi, .prusaToken, .fingerprint, .adminPassword, .mqtt, .summary, .persist, .finish]

def persistPrerequisites : Finset Step := {.wifi, .adminPassword}

def skippableSteps : List Step := [.prusaToken, .fingerprint, .mqtt]

def defaultMqttUri : String := "mqtts://broker.example:8883"

structure ProbeResult where
  ok : Bool
  reason : String := ""
  sensors : ℕ := 0

/-- A value of a step's data. Of what is neither text nor truth value nor a probe result
only its truth counts. -/
inductive Value where
  | null
  | bool (b : Bool)
  | str (s : String)
  | probe (p : ProbeResult)
  | other (truth : Bool)

namespace Value

def truthy : Value → Bool
  | null => false
  | bool b => b
  | str s => s ≠ ""
  | probe _ => true
  | other truth => truth

def text : Value → String
  | str s => s
  | _ => ""

def isNull : Value → Bool
  | null => true
  | _ => false

def isTextOrNull : Value → Bool
  | null | str _ => true
  | _ => false

def isBoolOrNull : Value → Bool
  | null | bool _ => true
  | _ => false

def probed : Value → ProbeResult
  | probe p => p
  | _ => { ok := false }

end Value

abbrev Data := List (String × Value)

def Data.get (data : Data) (key : String) (default : Value := .null) : Value := (data.lookup key).getD default

structure Status where
  storageReady : Bool
  cameraOk : Bool
  cameraReason : String
  sensors : ℕ

structure Imager where
  wifiSsid : String
  wifiPsk : String
  hostname : String
  sshEnabled : Bool

/-- A field is `none` until its key is set. -/
structure Wifi where
  ssid : Option String := none
  psk : Option String := none

structure Mqtt where
  enabled : Bool := false
  uri : String := ""
  username : String := ""
  password : String := ""

structure MqttTable where
  enabled : Bool := false
  uri : String := "mqtts://broker.example:8883"
  clientId : String := ""
  discoveryPrefix : String := "homeassistant"
  topicPrefix : String := "pibuddycam"
  caFile : String := ""

/-- The device document; the defaults are those of `default_device`. -/
structure Device where
  schemaVersion : ℕ := 1
  cameraName : String := "Printer Camera"
  fingerprint : String := ""
  prusaServer : String := "connect.prusa3d.com"
  mqtt : MqttTable := {}
  adminHostname : String := ""
  ntpServers : List String := []

structure Secrets where
  prusaToken : Option String := none
  wifiPsk : Option String := none
  mqttUsername : Option String := none
  mqttPassword : Option String := none
  adminPasswordHash : Option String := none

/-- The outcome of writing a document out and parsing it back. -/
inductive Parsed where
  | valid
  | configError (reason : String)
  | raised

/-- What the wizard takes from the libraries: two properties of texts, the schema's
verdicts on the documents, and `identity.resolve_fingerprint` (`none` when it raises). -/
structure Host where
  printable : Char → Bool
  lower : String → String
  parseDevice : Device → Parsed
  parseSecrets : Secrets → Parsed
  resolveFingerprint : String → Option String

/-- What a session is built with. The callables are there or not; what they answer is up
to the device. -/
structure Wizard where
  host : Host
  deviceId : String := ""
  hasProbe : Bool := false
  probeResult : Value := .null
  storageReady : Bool := false
  hasWifiScan : Bool := false
  hasQrDecoder : Bool := false
  hasMqttTester : Bool := false
  hasStartCamera : Bool := false
  hasActivateStation : Bool := false
  cameraRunning : Bool := false
  cameraName : String := "Printer Camera"
  prusaServer : String := ""

structure Session where
  step : Step := .status
  completed : Finset Step := ∅
  skipped : Finset Step := ∅
  status : Option Status := none
  imager : Option Imager := none
  wifi : Wifi := {}
  fingerprint : String := ""
  hostname : String := ""
  mqtt : Mqtt := {}
  wifiScanResults : List Value := []
  token : String := ""
  adminHash : String := ""
  device : Option Device := none
  secrets : Option Secrets := none
  persisted : Bool := false
  finished : Bool := false
  provisioningState : Option State := none
  cameraValidated : Bool := false

structure StepResult where
  ok : Bool
  reason : String := ""
  step : String := ""
  state : Option State := none

/-- What a step's handler comes to: `(True, '')`, `(False, reason)` or an exception. -/
inductive Verdict where
  | accepted
  | rejected (reason : String)
  | raised

/-- What `wifi_scan` gives: an exception, a value that `list` refuses, or the networks. -/
inductive Scan where
  | raised | notIterable
  | networks (results : List Value)

structure Disk where
  state : StateFile := .missing
  device : Option Device := none
  secrets : Option Secrets := none

/-- What the wizard asks of the device: its files, its clock, and the callables. -/
inductive Op where
  | loadState
  | saveState (file : StateFile)
  | saveDevice (device : Device)
  | saveSecrets (secrets : Secrets)
  | clock
  | probe
  | wifiScan
  | qrDecoder (payload : Value)
  | readMac
  | hashPassword (password : String)
  | mqttTester (uri username password : Value)
  | hotspotStop
  | hotspotStart (ssid : String)
  | activateStation (ssid psk : String)
  | startCamera

def Res : Op → Type
  | .loadState => StateFile
  | .saveState _ | .saveDevice _ | .saveSecrets _ => Bool
  | .clock => String
  | .probe | .qrDecoder _ => Option Value
  | .wifiScan => Scan
  | .readMac => Option String
  | .hashPassword _ => Except String String
  | .mqttTester _ _ _ | .hotspotStop | .hotspotStart _ | .activateStation _ _ => Option (Bool × String)
  | .startCamera => Option Bool

/-- What the device settles: whether the state file, another file is written, the time,
and the answers of the callables. `started` is `some true` for every value but `False`. -/
structure Choice where
  saved : Bool := true
  written : Bool := true
  time : String := ""
  value : Option Value := none
  scan : Scan := .raised
  mac : Option String := none
  hash : Except String String := .error ""
  outcome : Option (Bool × String) := none
  started : Option Bool := none

def Disk.step (d : Disk) : (o : Op) → Choice → Res o × Disk
  | .loadState, _ => (d.state, d)
  | .saveState file, c => (c.saved, if c.saved then { d with state := file } else d)
  | .saveDevice device, c => (c.written, if c.written then { d with device := some device } else d)
  | .saveSecrets secrets, c => (c.written, if c.written then { d with secrets := some secrets } else d)
  | .clock, c => (c.time, d)
  | .probe, c | .qrDecoder _, c => (c.value, d)
  | .wifiScan, c => (c.scan, d)
  | .readMac, c => (c.mac, d)
  | .hashPassword _, c => (c.hash, d)
  | .mqttTester _ _ _, c | .hotspotStop, c | .hotspotStart _, c | .activateStation _ _, c => (c.outcome, d)
  | .startCamera, c => (c.started, d)

def appliance : Machine Op Res Disk Choice := ⟨Disk.step⟩

abbrev Run := Prog Op Res

def sys (o : Op) : Run (Res o) := Prog.op o

def saveState (file : StateFile) : Run Bool := sys (.saveState file)

end PiBuddyCam.Setup
