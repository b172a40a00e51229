import PiBuddyCam.OrderedDict
import PiBuddyCam.PyText
import Mathlib.Algebra.Order.Ring.Int

/-! `app/state.py`: the runtime state of the camera, its setters, the durable part of it and how
that is restored. -/
namespace PiBuddyCam.Settings

/-- An argument or a JSON value as far as the checks tell them apart. -/
inductive Value where
  | none
  | bool (b : Bool)
  | int (n : ℤ)
  /-- A float that equals an integer; every other float is `other`. -/
  | float (n : ℤ)
  | str (s : String)
  /-- A list, a dictionary or a set. -/
  | unhashable
  | other
  deriving DecidableEq

abbrev Document := OrderedDict String Value

def getOrNone (data : Document) (key : String) : Value := (data.get? key).getD .none

inductive Trigger where
  | interval
  | gpio
  deriving DecidableEq

def Trigger.name : Trigger → String
  | .interval => "interval"
  | .gpio => "gpio"

def safePins : List ℤ := [4, 5, 6, 12, 13, 16, 17, 18, 19, 20, 21, 22, 23, 24, 25, 26, 27]

def rotations : List ℤ := [0, 90, 180, 270]

def tiers : List ℤ := [1, 2, 3]

structure CameraState where
  cameraName : String := "PiBuddyCam"
  quality : ℤ := 3
  rotation : ℤ := 0
  snapshotInterval : ℤ := 10
  snapshotUploadEnabled : Bool := true
  rtspMode : ℤ := 1
  rtspRunning : Bool := false
  webrtcMode : ℤ := 1
  webrtcStatus : ℤ := 1
  turnOnline : Bool := false
  infoDirty : Bool := true
  timelapseEnabled : Bool := false
  timelapseInterval : ℤ := 10
  timelapseFps : ℤ := 10
  timelapseTrigger : Trigger := .interval
  timelapseGpioPin : Option ℤ := none
  timelapseGpioRecordPin : Option ℤ := none
  timezone : String := ""

def intIn (allowed : List ℤ) : Value → Option ℤ
  | .int n => if n ∈ allowed then some n else none
  | _ => none

def intBetween (low high : ℤ) : Value → Option ℤ
  | .int n => if low ≤ n ∧ n ≤ high then some n else none
  | _ => none

def boolOnly : Value → Option Bool
  | .bool b => some b
  | _ => none

/-- A setter: a value that passes its check is assigned, any other one is refused. -/
def assign {α : Type} (s : CameraState) (check : Option α) (set : α → CameraState) : Bool × CameraState :=
  match check with
  | none => (false, s)
  | some a => (true, set a)

namespace CameraState

def markInfoDirty (s : CameraState) : CameraState := { s with infoDirty := true }

def setRotation (s : CameraState) (degrees : Value) : Bool × CameraState :=
  assign s (intIn rotations degrees) fun n => if n ≠ s.rotation then markInfoDirty { s with rotation := n } else s

def setQuality (s : CameraState) (quality : Value) : Bool × CameraState :=
  assign s (intIn tiers quality) fun n => { s with quality := n }

def setSnapshotInterval (s : CameraState) (seconds : Value) : Bool × CameraState :=
  assign s (intBetween 10 600 seconds) fun n => markInfoDirty { s with snapshotInterval := n }

def setTimelapseInterval (s : CameraState) (seconds : Value) : Bool × CameraState :=
  assign s (intBetween 1 3600 seconds) fun n => { s with timelapseInterval := n }

end CameraState

def triggerOf : Value → Option Trigger
  | .str s => if s = "interval" then some .interval else if s = "gpio" then some .gpio else none
  | _ => none

namespace CameraState

def setTimelapseTrigger (s : CameraState) (trigger : Value) : Bool × CameraState :=
  assign s ((triggerOf trigger).filter fun t => !(t = .gpio && s.timelapseGpioPin.isNone)) fun t =>
    { s with timelapseTrigger := t }

def setTimelapseGpioPin (s : CameraState) (pin : Value) : Bool × CameraState :=
  if pin = .none then
    if s.timelapseTrigger = .gpio then (false, s) else (true, { s with timelapseGpioPin := none })
  else
    assign s ((intIn safePins pin).filter fun n => some n ≠ s.timelapseGpioRecordPin) fun n =>
      { s with timelapseGpioPin := some n }

def setTimelapseGpioRecordPin (s : CameraState) (pin : Value) : Bool × CameraState :=
  if pin = .none then (true, { s with timelapseGpioRecordPin := none })
  else
    assign s ((intIn safePins pin).filter fun n => some n ≠ s.timelapseGpioPin) fun n =>
      { s with timelapseGpioRecordPin := some n }

def setCameraName (s : CameraState) : Value → Bool × CameraState
  | .str name => assign s (some (PyText.strip name) |>.filter (· ≠ "")) fun n => { s with cameraName := n }
  | _ => (false, s)

end CameraState

def zoneChar (c : Char) : Bool := c.isAlphanum || c = '_' || c = '+' || c = '-'

def zoneShape (name : String) : Bool :=
  let parts := (PyText.beforeDollar name.toList).splitOn '/'
  parts.length ≤ 3 && parts.all fun part => part ≠ [] && part.all zoneChar

section Zones

-- the zones that this system knows
variable (zones : List String)

def validZoneName (name : String) : Bool :=
  name ≠ "" && name.length ≤ 64 && zoneShape name && (zones = [] || name ∈ zones)

namespace CameraState

def setTimezone (s : CameraState) : Value → Bool × CameraState
  | .str name => assign s (some name |>.filter fun n => n = "" || validZoneName zones n) fun n => { s with timezone := n }
  | _ => (false, s)

def persistableEntries (s : CameraState) : List (String × Value) :=
  [("quality_tier", .int s.quality), ("rotation", .int s.rotation), ("camera_name", .str s.cameraName),
    ("snapshot_interval", .int s.snapshotInterval), ("snapshot_upload_enabled", .bool s.snapshotUploadEnabled),
    ("timelapse_interval", .int s.timelapseInterval), ("timelapse_enabled", .bool s.timelapseEnabled),
    ("timelapse_fps", .int s.timelapseFps), ("timelapse_trigger", .str s.timelapseTrigger.name),
    ("timelapse_gpio_pin", s.timelapseGpioPin.elim .none .int),
    ("timelapse_gpio_record_pin", s.timelapseGpioRecordPin.elim .none .int), ("timezone", .str s.timezone),
    ("rtsp_mode", .int s.rtspMode), ("webrtc_mode", .int s.webrtcMode)]

def persistableState (s : CameraState) : Document where
  entries := s.persistableEntries
  nodup := by
    change List.Nodup ["quality_tier", "rotation", "camera_name", "snapshot_interval", "snapshot_upload_enabled",
      "timelapse_interval", "timelapse_enabled", "timelapse_fps", "timelapse_trigger", "timelapse_gpio_pin",
      "timelapse_gpio_record_pin", "timezone", "rtsp_mode", "webrtc_mode"]
    decide

/-- The keys in the order in which `apply_persisted` looks at them, each with what it is set by.
The pins come before the trigger. -/
def persistedSetters : List (String × (CameraState → Value → Bool × CameraState)) :=
  [("quality_tier", setQuality), ("rotation", setRotation), ("camera_name", setCameraName),
    ("snapshot_interval", setSnapshotInterval),
    ("snapshot_upload_enabled", fun s v => assign s (boolOnly v) fun b => { s with snapshotUploadEnabled := b }),
    ("timelapse_interval", setTimelapseInterval),
    ("timelapse_enabled", fun s v => assign s (boolOnly v) fun b => { s with timelapseEnabled := b }),
    ("timelapse_fps", fun s v => assign s (intBetween 1 30 v) fun n => { s with timelapseFps := n }),
    ("timelapse_gpio_pin", setTimelapseGpioPin), ("timelapse_gpio_record_pin", setTimelapseGpioRecordPin),
    ("timelapse_trigger", setTimelapseTrigger), ("timezone", setTimezone zones),
    ("rtsp_mode", fun s v => assign s (intIn [1, 2] v) fun n => { s with rtspMode := n }),
    ("webrtc_mode", fun s v => assign s (intIn [0, 1] v) fun n => { s with webrtcMode := n })]

def applyKey (data : Document) (acc : CameraState × List String)
    (entry : String × (CameraState → Value → Bool × CameraState)) : CameraState × List String :=
  let value := getOrNone data entry.1
  if value ≠ .none ∧ (entry.2 acc.1 value).1 = true then ((entry.2 acc.1 value).2, acc.2 ++ [entry.1]) else acc

/-- `apply_persisted`: the new state and the keys that were applied. Data that is no dictionary is `none`. -/
def applyPersisted (s : CameraState) (data : Option Document) : CameraState × List String :=
  match data with
  | none => (s, [])
  | some data => (persistedSetters zones).foldl (applyKey data) (s, [])

end CameraState

end Zones

end PiBuddyCam.Settings
