import PiBuddyCam.CameraState

/-! `app/settings_coordinator.py` and the transitions it runs (`quality_control.py`, `rtsp_control.py`,
`webrtc_control.py`): how one settings mutation changes the camera state, the files, the durable
documents and the services, for every behaviour of what is injected. -/
namespace PiBuddyCam.Settings

/-- How a call of an injected callable ends. -/
inductive Reply (α : Type) where
  | raises
  | returns (a : α)

def Reply.succeeded : Reply Bool → Bool
  | .raises => false
  | .returns ok => ok

inductive Write where
  | done
  | fails (left : Option String)

def Write.content (wanted : Option String) : Write → Option String
  | .done => wanted
  | .fails left => left

/-- `settings_store.save`: whether the document got onto the disk, and how the call ended. -/
structure Save where
  wrote : Bool
  reply : Reply Bool

/-- What the injected callables and the files do during one operation. A callable that is not
injected is `none`. -/
structure Env where
  qualityApply : Bool
  readLive : Bool
  writeLive : Write
  restart : Reply ℤ
  restoreLive : Write
  qualityPersist : Option Write
  rotationApply : Option (Reply Bool)
  timezoneApply : Option (Reply Bool)
  rtspStart : Option (Reply Unit)
  rtspStop : Option (Reply Unit)
  rtspQuery : Option (Reply (Option Bool))
  writeMode : Write
  webrtcStart : Option (Reply Unit)
  webrtcStop : Option (Reply Unit)
  gpioApply : Option (Reply Unit)
  available : Bool
  save : Save
  publish : Reply Unit

/-- Everything is injected, as in `main`, and nothing fails. -/
def workingEnv : Env where
  qualityApply := true
  readLive := true
  writeLive := .done
  restart := .returns 0
  restoreLive := .done
  qualityPersist := some .done
  rotationApply := some (.returns true)
  timezoneApply := some (.returns true)
  rtspStart := some (.returns ())
  rtspStop := some (.returns ())
  rtspQuery := some (.returns none)
  writeMode := .done
  webrtcStart := some (.returns ())
  webrtcStop := some (.returns ())
  gpioApply := some (.returns ())
  available := true
  save := ⟨true, .returns true⟩
  publish := .returns ()

inductive ServiceCall where
  | restart
  | rotation (degrees : ℤ)
  | timezone (name : String)
  | rtspStart
  | rtspStop
  | webrtcStart
  | webrtcStop
  | gpio (trigger : Trigger) (pin recordPin : Option ℤ)

structure World where
  camera : CameraState
  /-- `quality.live.env`, `quality.env` and `rtsp.mode`. -/
  live : Option String := none
  boot : Option String := none
  rtspFile : Option String := none
  /-- The documents written to `state.json`, the newest one last. -/
  documents : List Document := []
  published : ℕ := 0
  calls : List ServiceCall := []

structure SettingsResult where
  ok : Bool
  reason : Option String
  changed : List String
  state : Document

abbrev Outcome := SettingsResult × World

section Quality

/-- `RAW_TO_ENUM.get(raw)`: a float that equals a key finds it, a list raises. -/
def rawToEnum : Value → Reply (Option ℤ)
  | .int n | .float n => .returns (if n = 5 then some 1 else if n = 6 then some 2 else if n = 7 then some 3 else none)
  | .unhashable => .raises
  | .none | .bool _ | .str _ | .other => .returns none

def enumToRaw (tier : ℤ) : ℤ := if tier = 1 then 5 else if tier = 2 then 6 else 7

def resolution (tier : ℤ) : ℕ × ℕ := if tier = 1 then (640, 480) else if tier = 2 then (1280, 720) else (1920, 1080)

def tierText (tier : ℤ) : String :=
  "CAM_WIDTH=" ++ toString (resolution tier).1 ++ "\nCAM_HEIGHT=" ++ toString (resolution tier).2 ++ "\n"

def qualityChangeAllowed (current requested : ℤ) (turnOnline : Bool) : Bool := !turnOnline || requested ≤ current

def turnQualityLockLog : String := "TURN client ONLINE - WebRTC is active, video quality change is not allowed"

end Quality

def runtimeAfterCommand (mode : ℤ) : Option (Reply (Option Bool)) → Bool
  | some (.returns (some active)) => active
  | _ => mode = 2

def applyEnable (s : CameraState) (action : Value) : Bool × CameraState :=
  if action = .str "timelapse_enable" then (true, { s with timelapseEnabled := true })
  else if action = .str "timelapse_disable" then (true, { s with timelapseEnabled := false })
  else (false, s)

def offerAllowed (s : CameraState) : Bool := !(s.webrtcMode = 0 && s.webrtcStatus = 0)

def pinShape : Value → Bool
  | .none | .int _ => true
  | _ => false

namespace World

def result (w : World) (ok : Bool) (reason : Option String) (changed : List String) : Outcome :=
  (⟨ok, reason, changed, w.camera.persistableState⟩, w)

def refuse (w : World) (reason : String) : Outcome := w.result false (some reason) []

def called (w : World) (call : ServiceCall) : World := { w with calls := w.calls ++ [call] }

variable (zones : List String) (env : Env)

def persistState (w : World) : Reply Bool × World :=
  if env.available then
    (env.save.reply,
      if env.save.wrote then { w with documents := w.documents ++ [w.camera.persistableState.set "version" (.int 1)] } else w)
  else (.returns false, w)

def publishState (w : World) : World :=
  match env.publish with
  | .raises => { w with published := w.published + 1 }
  | .returns _ => { w with published := w.published + 1, camera := w.camera.markInfoDirty }

def applyGpio (w : World) : World :=
  match env.gpioApply with
  | none => w
  | some _ => w.called (.gpio w.camera.timelapseTrigger w.camera.timelapseGpioPin w.camera.timelapseGpioRecordPin)

def commit (w : World) (changed : List String) : Outcome :=
  ((w.persistState env).2.publishState env).result true none changed

def commitAndArm (w : World) (changed : List String) : Outcome :=
  ((w.commit env changed).1, (w.commit env changed).2.applyGpio env)

def restore (w : World) (persisted : Option Document) : Outcome :=
  let applied := w.camera.applyPersisted zones persisted
  (({ w with camera := applied.1 }.publishState env).applyGpio env).result true none applied.2

def setThrough (w : World) (set : Bool × CameraState) (reason key : String) : Outcome :=
  if set.1 then { w with camera := set.2 }.commit env [key] else w.refuse reason

def setAndArm (w : World) (set : Bool × CameraState) (reason key : String) : Outcome :=
  if set.1 then { w with camera := set.2 }.commitAndArm env [key] else w.refuse reason

def setAfter (w : World) (hook : Option (Reply Bool)) (call : ServiceCall) (set : CameraState) (reason key : String) : Outcome :=
  match hook with
  | none => w.refuse "live apply unavailable"
  | some reply =>
    if reply.succeeded then { w.called call with camera := set }.commit env [key] else (w.called call).refuse reason

def applyLiveQuality (w : World) (raw : Value) : Reply Bool × World :=
  match rawToEnum raw with
  | .raises => (.raises, w)
  | .returns none => (.returns false, w)
  | .returns (some tier) =>
    if env.readLive then
      match env.writeLive with
      | .fails _ => (.returns false, { w with live := env.restoreLive.content w.live })
      | .done =>
        match env.restart with
        | .raises => (.returns false, { w.called .restart with live := env.restoreLive.content w.live })
        | .returns code =>
          if code = 0 then
            (.returns true, { w.called .restart with live := some (tierText tier), camera := { w.camera with quality := tier } })
          else (.returns false, { w.called .restart with live := env.restoreLive.content w.live })
    else (.returns false, w)

/-- `persist_fn(qenum)`; without a callable the call raises as well. -/
def persistQuality (w : World) (tier : ℤ) : Reply Bool × World :=
  match env.qualityPersist with
  | none => (.returns false, w)
  | some write =>
    match write with
    | .done => (.returns true, { w with boot := some (tierText tier) })
    | .fails left => (.returns false, { w with boot := left })

def handleQuality (w : World) (raw : Value) (persist : Bool) : Reply Bool × World :=
  match rawToEnum raw with
  | .raises => (.raises, w)
  | .returns none => (.returns false, w)
  | .returns (some tier) =>
    if qualityChangeAllowed w.camera.quality tier w.camera.turnOnline then
      let applied := w.applyLiveQuality env raw
      if applied.1.succeeded then
        if persist then applied.2.persistQuality env tier else (.returns true, applied.2)
      else applied
    else (.returns false, w)

def qualityReason (w : World) (raw : Value) : String :=
  match rawToEnum raw with
  | .raises | .returns none => "unknown quality value"
  | .returns (some tier) =>
    if qualityChangeAllowed w.camera.quality tier w.camera.turnOnline then "live apply failed" else turnQualityLockLog

def setQuality (w : World) (raw : Value) (persist : Bool) : Outcome :=
  if env.qualityApply then
    let handled := w.handleQuality env raw persist
    if handled.1.succeeded then
      if persist then handled.2.commit env ["quality_tier"]
      else (handled.2.publishState env).result true none ["quality_tier"]
    else handled.2.refuse (handled.2.qualityReason raw)
  else w.refuse "live apply unavailable"

def setRotation (w : World) (degrees : Value) : Outcome :=
  match intIn rotations degrees with
  | none => w.refuse "rotation must be one of 0, 90, 180, 270"
  | some n =>
    w.setAfter env env.rotationApply (.rotation n) (w.camera.setRotation degrees).2 "live apply failed" "rotation"

def setSnapshotUpload (w : World) (enabled : Value) : Outcome :=
  w.setThrough env (assign w.camera (boolOnly enabled) fun b => { w.camera with snapshotUploadEnabled := b })
    "snapshot upload flag must be a boolean" "snapshot_upload_enabled"

def setSnapshotInterval (w : World) (seconds : Value) : Outcome :=
  w.setThrough env (w.camera.setSnapshotInterval seconds) "snapshot interval must be an int in 10..600" "snapshot_interval"

def setTimelapseEnabled (w : World) (action : Value) : Outcome :=
  w.setThrough env (applyEnable w.camera action) "timelapse action not recognized" "timelapse_enabled"

def setTimelapseInterval (w : World) (seconds : Value) : Outcome :=
  w.setThrough env (w.camera.setTimelapseInterval seconds) "timelapse interval must be an int in 1..3600" "timelapse_interval"

def setTimelapseFps (w : World) (fps : Value) : Outcome :=
  w.setThrough env (assign w.camera (intBetween 1 30 fps) fun n => { w.camera with timelapseFps := n })
    "timelapse fps must be an int in 1..30" "timelapse_fps"

def setTimelapseTrigger (w : World) (trigger : Value) : Outcome :=
  if triggerOf trigger = none then w.refuse "timelapse trigger must be interval or gpio"
  else
    w.setAndArm env (w.camera.setTimelapseTrigger trigger) "choose a layer pin before using the GPIO trigger"
      "timelapse_trigger"

def setTimelapseGpioPin (w : World) (pin : Value) : Outcome :=
  if pinShape pin then
    w.setAndArm env (w.camera.setTimelapseGpioPin pin)
      (if pin = .none then "switch the trigger back to interval first"
        else "GPIO pin is not offered or is already the recording pin")
      "timelapse_gpio_pin"
  else w.refuse "GPIO pin must be a BCM number or null"

def setTimelapseGpioRecordPin (w : World) (pin : Value) : Outcome :=
  if pinShape pin then
    w.setAndArm env (w.camera.setTimelapseGpioRecordPin pin) "GPIO pin is not offered or is already the layer pin"
      "timelapse_gpio_record_pin"
  else w.refuse "GPIO pin must be a BCM number or null"

/-- An empty name clears the zone and does not touch the system. -/
def setTimezone (w : World) : Value → Outcome
  | .str name =>
    if name = "" then { w with camera := (w.camera.setTimezone zones (.str "")).2 }.commit env ["timezone"]
    else if validZoneName zones name then
      w.setAfter env env.timezoneApply (.timezone name) (w.camera.setTimezone zones (.str name)).2
        "time zone could not be applied (needs a newer image)" "timezone"
    else w.refuse "unknown time zone"
  | _ => w.refuse "time zone must be a string"

def applyRtspMode (w : World) (persist : Bool) (mode : Value) : Bool × World :=
  match intIn [1, 2] mode with
  | none => (false, w)
  | some n =>
    let action := if n = 2 then (env.rtspStart, ServiceCall.rtspStart) else (env.rtspStop, ServiceCall.rtspStop)
    let w' := if action.1.isSome then w.called action.2 else w
    (true, { w' with
      rtspFile := if persist then env.writeMode.content (some (toString n ++ "\n")) else w.rtspFile
      camera := CameraState.markInfoDirty
        { w.camera with rtspMode := n, rtspRunning := runtimeAfterCommand n env.rtspQuery } })

def setRtspMode (w : World) (mode : Value) : Outcome :=
  let applied := w.applyRtspMode env true mode
  if applied.1 then applied.2.commit env ["rtsp_mode"] else applied.2.refuse "invalid rtsp mode"

def moveService (w : World) (hook : Option (Reply Unit)) (call : ServiceCall) (status : ℤ) : Bool × World :=
  match hook with
  | none => (true, { w with camera := { w.camera with webrtcStatus := status } })
  | some .raises => (false, w.called call)
  | some (.returns _) => (true, { w.called call with camera := { w.camera with webrtcStatus := status } })

def moveWebrtc (w : World) (requested : ℤ) : Bool × World :=
  if w.camera.webrtcStatus = 0 ∧ requested ≠ 0 then w.moveService env.webrtcStart .webrtcStart 1
  else if w.camera.webrtcStatus ≠ 0 ∧ requested = 0 then w.moveService env.webrtcStop .webrtcStop 0
  else (true, w)

def applyWebrtcMode (w : World) (requested : Value) : Bool × World :=
  match intIn [0, 1] requested with
  | none => (false, w)
  | some n =>
    let moved := w.moveWebrtc env n
    if moved.1 then
      (true, { moved.2 with camera := CameraState.markInfoDirty { moved.2.camera with webrtcMode := n } })
    else moved

def setWebrtcMode (w : World) (mode : Value) : Outcome :=
  if intIn [0, 1] mode = none then w.refuse "invalid webrtc mode"
  else
    let applied := w.applyWebrtcMode env mode
    if applied.1 then applied.2.commit env ["webrtc_mode"] else applied.2.refuse "webrtc service apply failed"

def setCameraName (w : World) (name : Value) : Outcome :=
  w.setThrough env (w.camera.setCameraName name) "camera name must be a non-empty string" "camera_name"

end World

inductive Field where
  | cameraName
  | quality
  | rotation
  | snapshotUploadEnabled
  | snapshotInterval
  | timelapseEnabled
  | timelapseInterval
  | timelapseFps
  | timelapseTrigger
  | timelapseGpioPin
  | timelapseGpioRecordPin
  | timezone
  | rtspMode
  | webrtcMode
  deriving DecidableEq

def mutationFields : List (String × Field) :=
  [("camera_name", .cameraName), ("quality", .quality), ("rotation", .rotation),
    ("snapshot_upload_enabled", .snapshotUploadEnabled), ("snapshot_interval", .snapshotInterval),
    ("timelapse_enabled", .timelapseEnabled), ("timelapse_interval", .timelapseInterval), ("timelapse_fps", .timelapseFps),
    ("timelapse_trigger", .timelapseTrigger), ("timelapse_gpio_pin", .timelapseGpioPin),
    ("timelapse_gpio_record_pin", .timelapseGpioRecordPin), ("timezone", .timezone), ("rtsp_mode", .rtspMode),
    ("webrtc_mode", .webrtcMode)]

def qualityNames : List (String × ℤ) := [("sd", 1), ("hd", 2), ("fhd", 3)]

def rtspNames : List (String × ℤ) := [("disabled", 1), ("enabled", 2)]

def webrtcNames : List (String × ℤ) := [("disabled", 0), ("enabled", 1)]

def named {α : Type} (names : List (String × α)) : Value → Option α
  | .str s => names.lookup s
  | _ => none

def Value.isStr : Value → Bool
  | .str _ => true
  | _ => false

namespace World

variable (zones : List String) (env : Env)

def mutate (w : World) (field : Field) (value : Value) : Outcome :=
  match field with
  | .cameraName => if value.isStr then w.setCameraName env value else w.refuse "camera name must be a string"
  | .quality =>
    match named qualityNames value with
    | none => w.refuse "quality must be one of sd, hd, fhd"
    | some tier => w.setQuality env (.int (enumToRaw tier)) true
  | .rotation => w.setRotation env value
  | .snapshotUploadEnabled => w.setSnapshotUpload env value
  | .snapshotInterval => w.setSnapshotInterval env value
  | .timelapseEnabled =>
    match boolOnly value with
    | none => w.refuse "timelapse enabled must be a boolean"
    | some b => w.setTimelapseEnabled env (.str (if b then "timelapse_enable" else "timelapse_disable"))
  | .timelapseInterval => w.setTimelapseInterval env value
  | .timelapseFps => w.setTimelapseFps env value
  | .timelapseTrigger => w.setTimelapseTrigger env value
  | .timelapseGpioPin => w.setTimelapseGpioPin env value
  | .timelapseGpioRecordPin => w.setTimelapseGpioRecordPin env value
  | .timezone => w.setTimezone zones env value
  | .rtspMode =>
    match named rtspNames value with
    | none => w.refuse "rtsp mode must be enabled or disabled"
    | some mode => w.setRtspMode env (.int mode)
  | .webrtcMode =>
    match named webrtcNames value with
    | none => w.refuse "webrtc mode must be enabled or disabled"
    | some mode => w.setWebrtcMode env (.int mode)

def applyMutation (w : World) (field value : Value) : Outcome :=
  match named mutationFields field with
  | none => w.refuse "unknown setting field"
  | some f => w.mutate zones env f value

end World

/-- The settings mutations that the coordinator offers: its setters, and the dispatch of the UI. -/
inductive Mutation where
  | quality (raw : Value) (persist : Bool)
  | rotation (degrees : Value)
  | snapshotUpload (enabled : Value)
  | snapshotInterval (seconds : Value)
  | timelapseEnabled (action : Value)
  | timelapseInterval (seconds : Value)
  | timelapseFps (fps : Value)
  | timelapseTrigger (trigger : Value)
  | timelapseGpioPin (pin : Value)
  | timelapseGpioRecordPin (pin : Value)
  | timezone (name : Value)
  | rtspMode (mode : Value)
  | webrtcMode (mode : Value)
  | cameraName (name : Value)
  | ui (field value : Value)

def Mutation.run (zones : List String) (env : Env) (w : World) : Mutation → Outcome
  | .quality raw persist => w.setQuality env raw persist
  | .rotation degrees => w.setRotation env degrees
  | .snapshotUpload enabled => w.setSnapshotUpload env enabled
  | .snapshotInterval seconds => w.setSnapshotInterval env seconds
  | .timelapseEnabled action => w.setTimelapseEnabled env action
  | .timelapseInterval seconds => w.setTimelapseInterval env seconds
  | .timelapseFps fps => w.setTimelapseFps env fps
  | .timelapseTrigger trigger => w.setTimelapseTrigger env trigger
  | .timelapseGpioPin pin => w.setTimelapseGpioPin env pin
  | .timelapseGpioRecordPin pin => w.setTimelapseGpioRecordPin env pin
  | .timezone name => w.setTimezone zones env name
  | .rtspMode mode => w.setRtspMode env mode
  | .webrtcMode mode => w.setWebrtcMode env mode
  | .cameraName name => w.setCameraName env name
  | .ui field value => w.applyMutation zones env field value

end PiBuddyCam.Settings
