import PiBuddyCam.UpdaterSwitch

/-! `install_update` of `app/updater_install.py`. Times are exact numbers of seconds. -/
namespace PiBuddyCam.Updater

def freeSpace : Run FreeSpace := sys .freeSpace
def isfile (name file : String) : Run Bool := sys (.isfile name file)
def getsize (name file : String) : Run (Except String ℕ) := sys (.getsize name file)
def clock : Run ℚ := sys .clock
def sleeper (seconds : ℚ) : Run Bool := sys (.sleep seconds)
def mkdtemp (stem : String) : Run (Except String String) := sys (.mkdtemp stem)
def inject (e : Effect) : Run Raw := sys (.effect e)

inductive InstallOutcome where
  | installed | rolledBack | failed
  deriving DecidableEq

structure InstallResult where
  ok : Bool
  outcome : InstallOutcome
  installedVersion : String
  attemptedVersion : String
  rebootRequired : Bool
  reason : String
  deriving DecidableEq

/-- The callables whose behaviour on the releases directory matters, and whether
`stop_services` is given. -/
structure Effects where
  switch : String → String → Run Raw
  recordBad : String → Val → Run Raw
  prune : List String → Run Raw
  stopServices : Bool

def injectedEffects (stopServices : Bool) : Effects where
  switch staging version := inject (.switch staging version)
  recordBad version reason := inject (.recordBad version reason)
  prune kept := inject (.prune kept)
  stopServices := stopServices

/-- The updater's own `switch_release`, `record_bad_release` and `default_prune`. -/
def ownEffects (pid : ℕ) (stopServices : Bool) : Effects where
  switch staging version := do
    let (ok, reason) ← switchRelease pid staging version
    pure (.tuple [.other ok, .str reason])
  recordBad version _ := do
    let ok ← recordBadRelease pid version
    pure (.scalar (.other ok))
  prune kept := do
    let removed ← defaultPrune kept
    pure (.scalar (.other (removed ≠ [])))
  stopServices := stopServices

structure InstallArgs where
  pid : ℕ
  manifest : Manifest
  secrets : List String := []
  currentVersion : String := ""
  currentImageVersion : String := ""
  forceReinstall : Bool := false

def effectResult : Raw → Bool × Val
  | .raised error => (false, .str error)
  | .tuple [ok, value] => (ok.truthy, value)
  | .tuple items => (items ≠ [], .str "")
  | .none => (true, .str "")
  | .scalar v => (v.truthy, .str "")

def effect (e : Effect) : Run (Bool × Val) := do
  let raw ← inject e
  pure (effectResult raw)

def healthOk : Raw → Bool
  | .raised _ => false
  | .tuple (ok :: _) => ok.truthy
  | .tuple [] => false
  | .none => false
  | .scalar v => v.truthy

/-- Why `_install_update` stops: a reason for `_failed`, or an exception. -/
inductive Stop where
  | reason (value : Val)
  | raised (error : String)

def manifestVersion (m : Manifest) : Option String := if isSemver m.version then some m.version else none

def failed (a : InstallArgs) (version : String) (reason : Val) : Run InstallResult := do
  let d ← look
  pure ⟨false, .failed, activeVersion d, version, false, redact reason a.secrets⟩

def checkFreeSpace (size : ℤ) : Run (Except Stop Unit) := do
  match ← freeSpace with
  | .number free =>
    pure (if free < requiredFreeSpace size then .error (.reason (.str "insufficient free space")) else .ok ())
  | .notFinite error => pure (.error (.raised error))
  | _ => pure (.error (.reason (.str "could not determine free space")))

def bundleFilename : String := "bundle.tar.zst"

def bundlePath : Val → String
  | .str path => if path = "" then bundleFilename else path
  | .other _ => bundleFilename

def demand (e : Effect) (text : String) : Run (Except Stop Val) := do
  let (ok, value) ← effect e
  pure (if ok then .ok value else .error (.reason (value.orText text)))

def checkSize (staging bundle : String) (size : ℤ) : Run (Except Stop Unit) := do
  match ← getsize staging bundle with
  | .error _ => pure (.error (.reason (.str "bundle could not be read")))
  | .ok actual =>
    pure (if (actual : ℤ) = size then .ok () else .error (.reason (.str "bundle size mismatch")))

def verifyAndExtract (m : Manifest) (staging bundle : String) : Run (Except Stop Unit) := do
  let present ← isfile staging bundle
  if present = false then return .error (.reason (.str "downloaded bundle is missing"))
  match ← demand (.verifyManifestSignature m staging) "manifest signature verification failed" with
  | .error stop => pure (.error stop)
  | .ok _ =>
    match ← demand (.verifyBundleSignature staging bundle) "bundle signature verification failed" with
    | .error stop => pure (.error stop)
    | .ok _ =>
      match ← checkSize staging bundle m.bundleSize with
      | .error stop => pure (.error stop)
      | .ok () =>
        match ← demand (.extract staging bundle m.bundleSha256) "bundle extraction failed" with
        | .error stop => pure (.error stop)
        | .ok _ =>
          attempt (.removeIn staging bundle)
          pure (.ok ())

def fetchBundle (m : Manifest) (staging : String) : Run (Except Stop Unit) := do
  match ← checkFreeSpace m.bundleSize with
  | .error stop => pure (.error stop)
  | .ok () =>
    match ← demand (.download m staging) "bundle download failed" with
    | .error stop => pure (.error stop)
    | .ok value => verifyAndExtract m staging (bundlePath value)

def buildRelease (fx : Effects) (m : Manifest) (staging : String) : Run (Except Stop Unit) := do
  match ← (if fx.stopServices then demand .stopServices "could not quiesce the camera runtime"
           else pure (.ok (.str "")) : Run (Except Stop Val)) with
  | .error stop => pure (.error stop)
  | .ok _ =>
    match ← demand (.buildVenv staging m) "release venv build failed" with
    | .error stop => pure (.error stop)
    | .ok _ =>
      match ← demand (.preflight staging m) "release preflight failed" with
      | .error stop => pure (.error stop)
      | .ok _ => pure (.ok ())

def pollHealth (version : String) (deadline : ℚ) : ℕ → Run Bool
  | 0 => pure false
  | attempts+1 => do
    let raw ← inject (.healthCheck version)
    if healthOk raw then return true
    let now ← clock
    if deadline ≤ now ∨ min 5 (deadline-now) ≤ 0 then return false
    let slept ← sleeper (min 5 (deadline-now))
    if slept then pollHealth version deadline attempts else pure false

def waitForHealth (version : String) : Run Bool := do
  let now ← clock
  pollHealth version (now+90) 200

def orText (value other : String) : String := if value = "" then other else value

def rollBack (fx : Effects) (a : InstallArgs) (version : String) (reason : Val) : Run InstallResult := do
  let _ ← rollback a.pid
  let d ← look
  let restored := activeVersion d
  let _ ← effect (.restartServices (orText restored version))
  let _ ← fx.recordBad version reason
  pure ⟨false, .rolledBack, restored, version, false, redact reason a.secrets⟩

def activate (fx : Effects) (a : InstallArgs) (version previousVersion : String) : Run InstallResult := do
  let (ok, reason) ← effect (.restartServices version)
  if ok = false then
    return ← rollBack fx a version (reason.orText "service restart failed; restored the previous release")
  let healthy ← waitForHealth version
  if healthy = false then
    return ← rollBack fx a version (.str "health checks failed; restored the previous release")
  let _ ← fx.prune ([version, previousVersion].filter (· ≠ ""))
  pure ⟨true, .installed, version, version, a.manifest.rebootRequired, ""⟩

/-- How the `try` block of `_install_update` ends, with its two flags. -/
structure Attempt where
  result : Except String InstallResult
  quiesced : Bool
  activated : Bool

def stopped (a : InstallArgs) (version : String) (quiesced : Bool) : Stop → Run Attempt
  | .reason value => do
    let result ← failed a version value
    pure ⟨.ok result, quiesced, false⟩
  | .raised error => pure ⟨.error error, quiesced, false⟩

def installFrom (fx : Effects) (a : InstallArgs) (version staging : String) : Run Attempt := do
  match ← fetchBundle a.manifest staging with
  | .error stop => stopped a version false stop
  | .ok () =>
    match ← buildRelease fx a.manifest staging with
    | .error stop => stopped a version fx.stopServices stop
    | .ok () =>
      let d ← look
      let raw ← fx.switch staging version
      let (ok, reason) := effectResult raw
      if ok = false then
        return ← stopped a version fx.stopServices (.reason (reason.orText "release activation failed"))
      let result ← activate fx a version (activeVersion d)
      pure ⟨.ok result, fx.stopServices, true⟩

def cleanUp (version staging : String) (out : Attempt) : Run Unit := do
  if out.quiesced && !out.activated then
    let d ← look
    let _ ← effect (.restartServices (orText (activeVersion d) version))
  let d ← look
  if d.exists? (.entry staging) then rmtree staging

def stagingStem (version : String) : String := "." ++ version ++ ".staging."

def makeStaging (version : String) : Run (Except String String) := do
  match ← makedirs with
  | .error e => pure (.error e)
  | .ok () => mkdtemp (stagingStem version)

def stagedInstall (fx : Effects) (a : InstallArgs) (version : String) : Run InstallResult := do
  match ← makeStaging version with
  | .error e => failed a version (.str (reasonOf "could not create the staging directory" e))
  | .ok staging =>
    let out ← installFrom fx a version staging
    cleanUp version staging out
    match out.result with
    | .ok result => pure result
    | .error e => pure ⟨false, .failed, "", "", false, redact (.str (reasonOf "install failed" e)) a.secrets⟩

def refusedVersions (force : Bool) : Run (List String) := if force then pure [] else readBadVersions

def installUpdate (fx : Effects) (a : InstallArgs) : Run InstallResult := do
  match manifestVersion a.manifest with
  | none => failed a "" (.str "manifest is invalid")
  | some version =>
    if !isSha256 a.manifest.bundleSha256 || !validBundleSize a.manifest.bundleSize then
      return ← failed a version (.str "manifest is invalid")
    let refused ← refusedVersions a.forceReinstall
    if refused.contains version then
      return ← failed a version (.str "release is marked bad; reinstall requires an explicit force")
    let d ← look
    let classification := classifyManifest a.manifest (orText a.currentVersion (activeVersion d)) a.currentImageVersion
    if classification.1 = .available then stagedInstall fx a version
    else failed a version (.str (orText classification.2 "manifest is not installable"))

end PiBuddyCam.Updater
