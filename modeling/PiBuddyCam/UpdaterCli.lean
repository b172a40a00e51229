import Mathlib.Algebra.GroupWithZero.Nat
import Mathlib.Algebra.Order.Ring.Rat
import PiBuddyCam.UpdaterInstall

/-! `check_for_update` and the commands `recover`, `check` and `install` of
`app/updater_install.py`. What the commands print is not modelled. -/
namespace PiBuddyCam.Updater

inductive CheckOutcome where
  | available | upToDate | invalid | error | suppressed
  deriving DecidableEq

def CheckOutcome.text : CheckOutcome → String
  | .available => "available"
  | .upToDate => "up_to_date"
  | .invalid => "invalid"
  | .error => "error"
  | .suppressed => "suppressed"

structure CheckResult where
  checked : Bool
  outcome : CheckOutcome
  manifest : Option Manifest
  reason : String
  nextCheckEpoch : ℚ
  deriving DecidableEq

def uniform : Run (Option ℚ) := sys .uniform
def readLastCheck : Run (Except String (Option ℚ)) := sys .readLastCheck

def jitteredInterval : Option ℚ → ℚ
  | none => 86400
  | some offset => min (max (86400+offset) (86400/2)) (86400*3/2)

structure CheckArgs where
  currentVersion : String
  currentImageVersion : String
  fetched : Except Val Payload
  verify : Bool := true
  force : Bool := false
  badVersions : List String := []
  forceReinstall : Bool := false

def checked (now interval : ℚ) (outcome : CheckOutcome) (manifest : Option Manifest) (reason : String) :
    Run CheckResult := do
  attempt (.writeLastCheck now)
  pure ⟨true, outcome, manifest, reason, now+interval⟩

def classifyUpdate (a : CheckArgs) (now interval : ℚ) (manifest : Manifest) : Run CheckResult :=
  if a.forceReinstall = false && a.badVersions.contains manifest.version then
    checked now interval .suppressed (some manifest) "release is marked bad; reinstall requires an explicit force"
  else
    match classifyManifest manifest a.currentVersion a.currentImageVersion with
    | (.available, _) => checked now interval .available (some manifest) ""
    | (outcome, reason) =>
      checked now interval (if outcome = .upToDate then .upToDate else .invalid) (some manifest)
        (redact (.str (orText reason "manifest is not installable")) [])

def checkDue (h : Host) (a : CheckArgs) (now interval : ℚ) : Run CheckResult := do
  match a.fetched with
  | .error reason =>
    pure ⟨true, .error, none, redact (reason.orText "could not fetch the update manifest") [], now⟩
  | .ok payload =>
    let (ok, reason) ← (if a.verify then effect .verifyFile else pure (true, .str ""))
    if ok = false then
      return ← checked now interval .invalid none
        (redact (reason.orText "manifest signature verification failed") [])
    match parseManifest h payload with
    | .error text => checked now interval .invalid none (redact (.str (orText text "manifest is invalid")) [])
    | .ok manifest => classifyUpdate a now interval manifest

def notDue (force : Bool) (now interval : ℚ) : Option ℚ → Option ℚ
  | none => none
  | some last => if force = false ∧ now-last < interval then some last else none

def checkForUpdate (h : Host) (a : CheckArgs) : Run CheckResult := do
  let now ← clock
  let interval := jitteredInterval (← uniform)
  match ← readLastCheck with
  | .error _ => pure ⟨true, .error, none, "update check failed", 0⟩
  | .ok last =>
    match notDue a.force now interval last with
    | some last => pure ⟨false, .upToDate, none, "update check is not due yet", last+interval⟩
    | none => checkDue h a now interval

def jsonCharLength (c : Char) : ℕ :=
  if c = '"' ∨ c = '\\' ∨ c = '\n' ∨ c = '\r' ∨ c = '\t' ∨ c = '\x08' ∨ c = '\x0c' then 2
  else if ' ' ≤ c ∧ c ≤ '~' then 1
  else if c.toNat < 0x10000 then 6
  else 12

def jsonLength (s : String) : ℕ := (s.toList.map jsonCharLength).sum

def UpdateState.encodedLength (doc : UpdateState) : ℕ :=
  127 + jsonLength doc.installedVersion + jsonLength doc.latestVersion + jsonLength doc.releaseSummary +
    jsonLength doc.releaseUrl

def maxUpdateStateBytes : ℕ := 8*1024

def writeUpdateState (doc : UpdateState) : Run Unit :=
  if maxUpdateStateBytes < doc.encodedLength then pure () else attempt (.writeUpdateState doc)

def installStateDocument (installedVersion : String) (manifest : Option Manifest) (reason : String) : UpdateState :=
  let latest := (manifest.map (·.version)).getD ""
  let summary := (manifest.map (·.releaseSummary)).getD ""
  let url := (manifest.map (·.releaseUrl)).getD ""
  { installedVersion := boundedText installedVersion maxVersionLength
    latestVersion := boundedText latest maxVersionLength
    releaseSummary := boundedText (if latest = "" && reason ≠ "" then reason else summary) maxSummaryLength
    releaseUrl := boundedText url maxUrlLength }

def writeState (installedVersion : String) (manifest : Option Manifest) (reason : String) : Run Unit :=
  writeUpdateState (installStateDocument installedVersion manifest reason)

def applicationVersion : Run String := sys .applicationVersion
def makeTemp : Run Done := sys .makeTemp
def fetchManifest : Run (Except String (List UInt8)) := sys .fetchManifest
def manifestIsFile : Run Bool := sys .manifestIsFile
def readManifest : Run (Except String (Option String)) := sys .readManifest

def resolveVersions (override : String) : Run (String × String) := do
  if override ≠ "" then return (override, override)
  let d ← look
  if activeVersion d ≠ "" then return (activeVersion d, activeVersion d)
  let display ← applicationVersion
  pure (display, semverName (String.ofList (display.toList.takeWhile (· ≠ '+'))))

structure CheckCommand where
  pid : ℕ
  manifestUrl : String
  currentVersion : String := ""
  currentImageVersion : String := ""
  force : Bool := false

def writeCheckState (display : String) (result : CheckResult) : Run ℕ := do
  match result.outcome with
  | .available =>
    writeState display result.manifest ""
    pure 0
  | .upToDate =>
    writeState display result.manifest result.reason
    pure 0
  | .suppressed =>
    writeState display none result.reason
    pure 0
  | outcome =>
    writeState display none (orText result.reason outcome.text)
    pure 1

/-- `_cli_check`: the result of the check, if it came to one, and the exit code; an
error is an exception that no handler takes. -/
def cliCheck (h : Host) (a : CheckCommand) : Run (Except String (Option CheckResult × ℕ)) := do
  let _ ← recoverInterrupted a.pid
  let (display, compare) ← resolveVersions a.currentVersion
  if a.manifestUrl = "" then
    writeState display none ""
    return .ok (none, 0)
  match ← makeTemp with
  | .error e => pure (.error e)
  | .ok () =>
    match ← fetchManifest with
    | .error e =>
      writeState display none (reasonOf "manifest fetch failed" e)
      pure (.ok (none, 1))
    | .ok payload =>
      let bad ← readBadVersions
      let result ← checkForUpdate h
        { currentVersion := compare, currentImageVersion := a.currentImageVersion, fetched := .ok (.bytes payload),
          force := a.force, badVersions := bad }
      let code ← writeCheckState display result
      pure (.ok (some result, code))

/-- Where `install` finds its manifest. -/
inductive ManifestSource where
  | path | url | none
  deriving DecidableEq

structure InstallCommand where
  pid : ℕ
  source : ManifestSource
  currentVersion : String := ""
  currentImageVersion : String := ""
  forceReinstall : Bool := false

/-- The manifest file, fetched if need be; an error is the exit code after the document
was written, or an exception. -/
def locateManifest (display : String) : ManifestSource → Run (Except (Except String ℕ) Unit)
  | .path => do
    let found ← manifestIsFile
    if found then return .ok ()
    writeState display none "manifest not found"
    pure (.error (.ok 2))
  | .url => do
    match ← makeTemp with
    | .error e => pure (.error (.error e))
    | .ok () =>
      match ← fetchManifest with
      | .error _ =>
        writeState display none "manifest fetch failed"
        pure (.error (.ok 1))
      | .ok _ => pure (.ok ())
  | .none => do
    writeState display none "no manifest configured"
    pure (.error (.ok 2))

/-- Verify and parse the manifest file. `readManifest` finds no text in a file that is
not UTF-8, whose exception no handler takes. -/
def loadManifest (h : Host) (display : String) : Run (Except (Except String ℕ) Manifest) := do
  let (ok, reason) ← effect .verifyFile
  if ok = false then
    writeState display none (match reason with
      | .str s => s
      | .other _ => "")
    return .error (.ok 1)
  match ← readManifest with
  | .error _ =>
    writeState display none "invalid manifest"
    pure (.error (.ok 1))
  | .ok none => pure (.error (.error "UnicodeDecodeError"))
  | .ok (some text) =>
    match parseManifest h (.text text) with
    | .error _ =>
      writeState display none "invalid manifest"
      pure (.error (.ok 1))
    | .ok manifest => pure (.ok manifest)

def cliInstall (h : Host) (a : InstallCommand) : Run (Except String ℕ) := do
  let _ ← recoverInterrupted a.pid
  let (display, compare) ← resolveVersions a.currentVersion
  match ← locateManifest display a.source with
  | .error out => pure out
  | .ok () =>
    match ← loadManifest h display with
    | .error out => pure out
    | .ok manifest =>
      let result ← installUpdate (ownEffects a.pid true)
        { pid := a.pid, manifest, currentVersion := compare, currentImageVersion := a.currentImageVersion,
          forceReinstall := a.forceReinstall }
      writeState (orText result.installedVersion display) (some manifest) ""
      pure (.ok (if result.ok then 0 else 1))

end PiBuddyCam.Updater
