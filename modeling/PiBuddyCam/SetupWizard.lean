import PiBuddyCam.SetupModel

/-! `setup_wizard.py`: the handlers of the steps, `submit`, the two walks along the chain of
provisioning states, and `finish`. -/
namespace PiBuddyCam.Setup

open Provisioning

def setupSsidSuffix (h : Host) (deviceId : String) : String :=
  let cleaned := (h.lower deviceId).toList.filter fun c => ('a' ≤ c ∧ c ≤ 'z') ∨ ('0' ≤ c ∧ c ≤ '9')
  String.ofList (cleaned.drop (cleaned.length - 6))

def setupSsid (h : Host) (deviceId : String) : String :=
  let suffix := setupSsidSuffix h deviceId
  if suffix = "" then "" else "PiBuddyCam-Setup-" ++ suffix

def adminHostname (h : Host) (deviceId : String) : String :=
  let suffix := setupSsidSuffix h deviceId
  if suffix = "" then "" else "pibuddycam-" ++ suffix

def passwordStrength (password : String) : Option String :=
  if PyText.strip password = "" then some "password must not be empty or only whitespace"
  else if password.length < 8 then some "password must be at least 8 characters"
  else if password.length > 1024 then some "password must be at most 1024 characters"
  else none

def redact (text : String) (secrets : List String) : String :=
  (secrets.filter (· ≠ "")).foldl (fun t secret => PyText.replace t secret "<redacted>") text

section Steps

variable (w : Wizard) (s : Session) (data : Data)

def stepStatus : Run (Session × Verdict) := do
  let storageReady := ((data.lookup "storage_ready").map Value.truthy).getD w.storageReady
  let given := data.get "probe_result" w.probeResult
  let probed ← if given.isNull && w.hasProbe then sys .probe else pure (some given)
  let result := (probed.getD .null).probed
  pure ({ s with
    cameraValidated := result.ok
    status := some ⟨storageReady, result.ok, result.reason, result.sensors⟩ }, .accepted)

def imagerFields : List (String × (Value → Bool)) :=
  [("wifi_ssid", Value.isTextOrNull), ("wifi_psk", Value.isTextOrNull), ("hostname", Value.isTextOrNull),
    ("ssh_enabled", Value.isBoolOrNull)]

def stepImagerPrefill : Session × Verdict :=
  match imagerFields.find? fun field => !field.2 (data.get field.1) with
  | some field => (s, .rejected (field.1 ++ " has an invalid type"))
  | none =>
    let imager : Imager :=
      ⟨(data.get "wifi_ssid").text, (data.get "wifi_psk").text, (data.get "hostname").text,
        (data.get "ssh_enabled").truthy⟩
    ({ s with
      imager := some imager
      wifi :=
        { ssid := if imager.wifiSsid ≠ "" then s.wifi.ssid <|> some imager.wifiSsid else s.wifi.ssid
          psk := if imager.wifiPsk ≠ "" then s.wifi.psk <|> some imager.wifiPsk else s.wifi.psk }
      hostname := if imager.hostname ≠ "" then imager.hostname else s.hostname }, .accepted)

def scanNetworks : Run (Session × Verdict) := do
  if !w.hasWifiScan then pure (s, .rejected "wifi scanning is not available")
  else
    match (← sys .wifiScan : Scan) with
    | .raised => pure (s, .rejected "wifi scan failed")
    | .notIterable => pure (s, .raised)
    | .networks results => pure ({ s with wifiScanResults := results }, .accepted)

def recordWifi : Session × Verdict :=
  match data.get "ssid", data.get "psk" (.str "") with
  | .str ssid, psk =>
    if PyText.strip ssid = "" then (s, .rejected "wifi SSID is required")
    else if !psk.isTextOrNull then (s, .rejected "wifi PSK must be a string")
    else if psk.text ≠ "" ∧ ¬(8 ≤ psk.text.length ∧ psk.text.length ≤ 63) then
      (s, .rejected "wifi PSK must be 8..63 characters")
    else ({ s with wifi := ⟨some (PyText.strip ssid), some psk.text⟩ }, .accepted)
  | _, _ => (s, .rejected "wifi SSID is required")

def stepWifi : Run (Session × Verdict) := do
  if (data.get "scan").truthy then
    let (s', verdict) ← scanNetworks w s
    match verdict with
    | .accepted => pure (recordWifi s' data)
    | refused => pure (s', refused)
  else pure (recordWifi s data)

def recordToken (token : Value) : Session × Verdict :=
  if PyText.strip token.text = "" then (s, .rejected "Prusa registration token is required")
  else ({ s with token := PyText.strip token.text }, .accepted)

def stepPrusaToken : Run (Session × Verdict) := do
  match data.get "source" (.str "manual") with
  | .str source =>
    if source = "qr" then
      if !w.hasQrDecoder then
        pure (s, .rejected "QR pairing is not implemented yet (WP-4 hook); enter the token manually")
      else
        match (← sys (.qrDecoder (data.get "qr")) : Option Value) with
        | none => pure (s, .rejected "QR pairing failed")
        | some token =>
          if PyText.strip token.text = "" then
            pure (s, .rejected "QR payload did not contain a registration token")
          else pure (recordToken s token)
    else if source = "manual" then pure (recordToken s (data.get "token"))
    else pure (s, .rejected "unknown token source")
  | _ => pure (s, .rejected "unknown token source")

def derivedFingerprint : Run String := do
  let raw := PyText.strip ((← sys .readMac : Option String).getD "")
  pure (if raw = "" then "" else (w.host.resolveFingerprint raw).getD "")

def stepFingerprint : Run (Session × Verdict) := do
  let given := data.get "fingerprint" (.str "")
  if !given.isTextOrNull then pure (s, .rejected "fingerprint must be a string")
  else if PyText.strip given.text = "" then
    let derived ← derivedFingerprint w
    pure ({ s with fingerprint := derived }, .accepted)
  else pure ({ s with fingerprint := PyText.strip given.text }, .accepted)

def stepAdminPassword : Run (Session × Verdict) := do
  match data.get "password" with
  | .str password =>
    match passwordStrength password with
    | some reason => pure (s, .rejected reason)
    | none =>
      match data.get "confirm" with
      | .str confirm =>
        if confirm ≠ password then pure (s, .rejected "password confirmation does not match")
        else
          match (← sys (.hashPassword password) : Except String String) with
          | .error reason => pure (s, .rejected reason)
          | .ok hash => pure ({ s with adminHash := hash }, .accepted)
      | _ => pure (s, .rejected "password confirmation does not match")
  | _ => pure (s, .rejected "password must be a string")

def testMqtt (uri username password : Value) : Run Verdict := do
  match (← sys (.mqttTester uri username password) : Option (Bool × String)) with
  | none => pure (.rejected "mqtt connection test failed")
  | some (true, _) => pure .accepted
  | some (false, reason) =>
    let scrubbed := (redact reason [password.text, username.text, uri.text]).toList.filter w.host.printable
    let shown := PyText.take 200 (PyText.strip (String.ofList scrubbed))
    pure (.rejected (if shown = "" then "mqtt connection test failed" else shown))

def mqttFields : List String := ["uri", "username", "password"]

def stepMqtt : Run (Session × Verdict) := do
  match data.get "enabled" (.bool false) with
  | .bool enabled =>
    let uri := data.get "uri" (.str "")
    let username := data.get "username" (.str "")
    let password := data.get "password" (.str "")
    match mqttFields.find? fun name => !(data.get name (.str "")).isTextOrNull with
    | some name => pure (s, .rejected ("mqtt " ++ name ++ " must be a string"))
    | none =>
      if enabled && uri.text = "" then pure (s, .rejected "mqtt uri is required when MQTT is enabled")
      else
        match if enabled then w.host.parseDevice { mqtt := { enabled := true, uri := uri.text } } else .valid with
        | .configError reason => pure (s, .rejected reason)
        | .raised => pure (s, .raised)
        | .valid =>
          let verdict ←
            if enabled && (data.get "test").truthy && w.hasMqttTester then testMqtt w uri username password
            else pure .accepted
          match verdict with
          | .accepted =>
            pure ({ s with mqtt :=
              ⟨enabled, if uri.text = "" then defaultMqttUri else uri.text, username.text, password.text⟩ }, .accepted)
          | refused => pure (s, refused)
  | _ => pure (s, .rejected "mqtt enabled must be a boolean")

end Steps

def applySkip (w : Wizard) (s : Session) : Step → Run Session
  | .prusaToken => pure { s with token := "" }
  | .fingerprint => do
    let derived ← derivedFingerprint w
    pure { s with fingerprint := derived }
  | .mqtt => pure { s with mqtt := ⟨false, defaultMqttUri, "", ""⟩ }
  | _ => pure s

def nonEmpty (text : String) : Option String := if text = "" then none else some text

def buildDocuments (w : Wizard) (s : Session) : Device × Secrets :=
  ({ cameraName := w.cameraName
     fingerprint := s.fingerprint
     adminHostname := if s.hostname ≠ "" then s.hostname else adminHostname w.host w.deviceId
     prusaServer := if w.prusaServer ≠ "" then w.prusaServer else "connect.prusa3d.com"
     mqtt := { enabled := s.mqtt.enabled
               uri := if s.mqtt.enabled ∧ s.mqtt.uri ≠ "" then s.mqtt.uri else defaultMqttUri } },
   { prusaToken := nonEmpty s.token
     wifiPsk := nonEmpty (s.wifi.psk.getD "")
     mqttUsername := if s.mqtt.enabled then nonEmpty s.mqtt.username else none
     mqttPassword := if s.mqtt.enabled then nonEmpty s.mqtt.password else none
     adminPasswordHash := nonEmpty s.adminHash })

def wizardFacts (s : Session) (cameraRunning : Bool) : Facts where
  storageReady := true
  cameraValidated := s.cameraValidated
  adminPasswordSet := true
  deviceValid := true
  prusaTokenSet := s.token ≠ ""
  cameraRunning := cameraRunning

/-- The loop of both walks: `advance` until `stop` is reached, a call fails or nothing
changes, at most `n` times. -/
def walk (w : Wizard) (stop : State) (facts : Facts) : ℕ → ProvisioningState → Run ProvisioningState
  | 0, st => pure st
  | n+1, st =>
    if st.state = stop then pure st
    else do
      let now ← (sys .clock : Run String)
      let out ← st.advance w.host.printable saveState now facts
      if out.1.ok = false ∨ out.2.state = st.state then pure out.2 else walk w stop facts n out.2

def walkFromDisk (w : Wizard) (stop : State) (facts : Facts) : Run State := do
  let file ← (sys .loadState : Run StateFile)
  let st ← walk w stop facts states.length (.load w.host.printable file)
  pure st.state

def advanceProvisioning (w : Wizard) (s : Session) : Run State :=
  walkFromDisk w .unclaimed (wizardFacts s false)

def finalizeProvisioning (w : Wizard) (s : Session) : Run Session := do
  let state ← walkFromDisk w .running (wizardFacts s true)
  pure { s with provisioningState := some state }

def stepPersist (w : Wizard) (s : Session) : Run (Session × Verdict) := do
  let (device, secrets) := buildDocuments w s
  match w.host.parseDevice device, w.host.parseSecrets secrets with
  | .configError reason, _ => pure (s, .rejected reason)
  | .raised, _ => pure (s, .raised)
  | .valid, .configError reason => pure (s, .rejected reason)
  | .valid, .raised => pure (s, .raised)
  | .valid, .valid =>
    if !(← (sys (.saveDevice device) : Run Bool)) then
      pure (s, .rejected "could not write device configuration")
    else if !(← (sys (.saveSecrets secrets) : Run Bool)) then
      pure (s, .rejected "could not write secrets configuration")
    else
      let saved := { s with device := some device, secrets := some secrets, persisted := true }
      let state ← advanceProvisioning w saved
      pure ({ saved with provisioningState := some state }, .accepted)

def restartHotspot (w : Wizard) : Run String := do
  match (← sys (.hotspotStart (setupSsid w.host w.deviceId)) : Option (Bool × String)) with
  | some (true, _) => pure ""
  | _ => pure "hotspot restart failed"

def stayInSetup (w : Wizard) (s : Session) (reason : String) : Run (Session × Option StepResult) := do
  let note ← restartHotspot w
  pure (s, some ⟨false, if note = "" then reason else reason ++ " (" ++ note ++ ")", "finish", s.provisioningState⟩)

def startAndFinalize (w : Wizard) (s : Session) : Run (Session × Option StepResult) := do
  match (← sys .startCamera : Option Bool) with
  | some true =>
    let finalized ← finalizeProvisioning w s
    pure ({ finalized with finished := true }, some ⟨true, "", "finish", finalized.provisioningState⟩)
  | _ => stayInSetup w s "camera target failed to start; device stayed in setup"

def activateStation (s : Session) : Run (Bool × String) := do
  let outcome ← (sys (.activateStation (s.wifi.ssid.getD "") (s.wifi.psk.getD "")) : Run (Option (Bool × String)))
  pure (outcome.getD (false, ""))

def finish (w : Wizard) (s : Session) (cameraRunning : Value) : Run (Session × Option StepResult) := do
  if !s.persisted then pure (s, some ⟨false, "configuration has not been persisted", "finish", none⟩)
  else if !w.hasStartCamera then
    pure (s, some ⟨false, "camera start callback is not configured", "finish", s.provisioningState⟩)
  else
    let running := if cameraRunning.isNull then w.cameraRunning else cameraRunning.truthy
    let (allowed, reason) := sensorHandoffAllowed s.provisioningState running
    if !allowed then pure (s, some ⟨false, reason, "finish", s.provisioningState⟩)
    else
      match (← sys .hotspotStop : Option (Bool × String)) with
      | none => pure (s, none)
      | some (false, reason) =>
        pure (s, some ⟨false, "could not stop provisioning hotspot: " ++ (if reason = "" then "unknown" else reason),
          "finish", s.provisioningState⟩)
      | some (true, _) =>
        if w.hasActivateStation then
          let (ok, detail) ← activateStation s
          if !ok then
            stayInSetup w s ("station activation failed" ++ (if detail = "" then "" else " (" ++ detail ++ ")") ++
              "; device stayed in setup")
          else startAndFinalize w s
        else startAndFinalize w s

def stepFinish (w : Wizard) (s : Session) (data : Data) : Run (Session × Verdict) := do
  let (s', result) ← finish w s (data.get "camera_running")
  match result with
  | none => pure (s', .raised)
  | some r => pure (s', if r.ok then .accepted else .rejected r.reason)

def handler (w : Wizard) (s : Session) (data : Data) : Step → Run (Session × Verdict)
  | .status => stepStatus w s data
  | .imagerPrefill => pure (stepImagerPrefill s data)
  | .wifi => stepWifi w s data
  | .prusaToken => stepPrusaToken w s data
  | .fingerprint => stepFingerprint w s data
  | .adminPassword => stepAdminPassword s data
  | .mqtt => stepMqtt w s data
  | .summary => pure (s, .accepted)
  | .persist => stepPersist w s
  | .finish => stepFinish w s data

def complete (s : Session) (step : Step) : Session × StepResult :=
  ({ s with
      completed := insert step s.completed
      step := (stepOrder[stepOrder.idxOf step + 1]?).getD s.step },
    ⟨true, "", step.name, s.provisioningState⟩)

def submitStep (w : Wizard) (s : Session) (step : Step) (data : Data) (skip : Bool) : Run (Session × StepResult) := do
  if skip && !skippableSteps.contains step then pure (s, ⟨false, "this step cannot be skipped", step.name, none⟩)
  else if step = .persist ∧ ¬persistPrerequisites ⊆ s.completed then
    pure (s, ⟨false, "complete the Wi-Fi and admin password steps first", step.name, none⟩)
  else if step = .finish ∧ s.persisted = false then
    pure (s, ⟨false, "configuration has not been persisted", step.name, none⟩)
  else if skip then
    let s' ← applySkip w s step
    pure (complete { s' with skipped := insert step s'.skipped } step)
  else
    let (s', verdict) ← handler w s data step
    match verdict with
    | .accepted => pure (complete { s' with skipped := s'.skipped.erase step } step)
    | .rejected reason => pure (s', ⟨false, reason, step.name, none⟩)
    | .raised => pure (s', ⟨false, "step failed", step.name, none⟩)

def submit (w : Wizard) (s : Session) (name : String) (data : Option Data) : Run (Session × StepResult) :=
  match stepOrder.find? fun step => step.name == name, data with
  | none, _ => pure (s, ⟨false, "unknown wizard step", name, none⟩)
  | some _, none => pure (s, ⟨false, "step data must be a mapping", name, none⟩)
  | some step, some fields =>
    match fields.get "skip" with
    | .null => submitStep w s step fields false
    | .bool skip => submitStep w s step fields skip
    | _ => pure (s, ⟨false, "skip must be a boolean", name, none⟩)

inductive Input where
  | setStep (name : String)
  | scan
  | submit (name : String) (data : Option Data)
  | finish (cameraRunning : Value)

def serve (w : Wizard) (s : Session) : Input → Run (Session × Option StepResult)
  | .setStep name =>
    match stepOrder.find? fun step => step.name == name with
    | none => pure (s, some ⟨false, "unknown wizard step", name, none⟩)
    | some step => pure ({ s with step := step }, some ⟨true, "", name, none⟩)
  | .scan => do
    let (s', verdict) ← scanNetworks w s
    match verdict with
    | .accepted => pure (s', some ⟨true, "", "", none⟩)
    | .rejected reason => pure (s', some ⟨false, reason, "", none⟩)
    | .raised => pure (s', none)
  | .submit name data => do
    let (s', result) ← submit w s name data
    pure (s', some result)
  | .finish cameraRunning => finish w s cameraRunning

end PiBuddyCam.Setup
