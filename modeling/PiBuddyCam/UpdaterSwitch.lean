import Mathlib.Data.List.Sort
import PiBuddyCam.ReleaseTree

/-! The parts of `app/updater_install.py` that work on the releases directory: the
atomic switch and its rollback, crash recovery, pruning and the bad-release markers. -/
namespace PiBuddyCam.Updater

abbrev Run (α : Type) := Prog Op Res α

def sys (o : Op) : Run (Res o) := Prog.op o

def look : Run Disk := sys .look
def listdir : Run (Except String (List String)) := sys .listdir
def listIn (name : String) : Run (Except String (List String)) := sys (.listIn name)
def readlink (name : String) : Run (Except String Loc) := sys (.readlink name)
def makedirs : Run Done := sys .makedirs
def chmod (name : String) : Run Done := sys (.chmod name)
def rename (src dst : String) : Run Done := sys (.rename src dst)
def symlink (target : Loc) (name : String) : Run Done := sys (.symlink target name)
def replace (src dst : String) : Run Done := sys (.replace src dst)
def makedirsIn (name : String) : Run Done := sys (.makedirsIn name)
def openIn (name file : String) : Run Done := sys (.openIn name file)
def writeIn (name file : String) : Run Done := sys (.writeIn name file)
def replaceIn (name src dst : String) : Run Done := sys (.replaceIn name src dst)

def attempt (o : Op) : Run Unit := do
  let _ ← sys o
  pure ()

def removeFile (name : String) : Run Unit := attempt (.remove name)

def rmtree (name : String) : Run Unit := do
  let files ← listIn name
  (files.toOption.getD []).forM (fun file => attempt (.removeIn name file))
  attempt (.rmdir name)

def Loc.basename : Loc → String
  | .entry name => name
  | .outside path => PyText.basename path

def currentLink : String := "current"
def previousLink : String := "previous"
def badDir : String := ".bad"

def currentTarget (d : Disk) : Loc :=
  let target := d.realpath (.entry currentLink)
  if d.isdir target then target else factoryApp

def semverName (name : String) : String := if isSemver name then name else ""

def activeVersion (d : Disk) : String := semverName (d.realpath (.entry currentLink)).basename

def symlinkVersion (d : Disk) (link : String) : String :=
  if d.isdir (.entry link) then semverName (d.realpath (.entry link)).basename else ""

def isVersionDir (d : Disk) (name : String) : Bool :=
  name ≠ currentLink && name ≠ previousLink && !PyText.startswith name "." && d.isRealDir name && isSemver name

def versionDirs : Run (List String) := do
  let names ← listdir
  let d ← look
  pure ((names.toOption.getD []).filter (isVersionDir d))

def tmpLink (pid : ℕ) (link : String) : String := link ++ ".tmp." ++ toString pid

def atomicSymlink (pid : ℕ) (target : Loc) (link : String) : Run Done := do
  match ← makedirs with
  | .error e => pure (.error e)
  | .ok () =>
    match ← symlink target (tmpLink pid link) with
    | .error e =>
      removeFile (tmpLink pid link)
      pure (.error e)
    | .ok () =>
      match ← replace (tmpLink pid link) link with
      | .error e =>
        removeFile (tmpLink pid link)
        pure (.error e)
      | .ok () => pure (.ok ())

def reasonOf (text error : String) : String := text ++ " (" ++ error ++ ")"

def swapLinks (pid : ℕ) (previous : Loc) (version : String) : Run (Bool × String) := do
  match ← atomicSymlink pid previous previousLink with
  | .error e =>
    rmtree version
    pure (false, reasonOf "could not update the previous symlink" e)
  | .ok () =>
    match ← atomicSymlink pid (.entry version) currentLink with
    | .error e =>
      rmtree version
      pure (false, reasonOf "could not update the current symlink" e)
    | .ok () => pure (true, "")

def moveIntoPlace (pid : ℕ) (staging version : String) (previous : Loc) : Run (Bool × String) := do
  match ← rename staging version with
  | .error e => pure (false, reasonOf "release activation failed" e)
  | .ok () => swapLinks pid previous version

def switchRelease (pid : ℕ) (staging version : String) : Run (Bool × String) := do
  if isSemver version = false then return (false, "release version is invalid")
  let d ← look
  if d.exists? (.entry version) then return (false, "release directory already exists")
  match ← chmod staging with
  | .error e => pure (false, reasonOf "release activation failed" e)
  | .ok () =>
    let d ← look
    moveIntoPlace pid staging version (currentTarget d)

def rollback (pid : ℕ) : Run Bool := do
  let previous ← readlink previousLink
  let d ← look
  match previous with
  | .ok target =>
    if d.isdir target then
      let done ← atomicSymlink pid target currentLink
      pure done.toBool
    else
      removeFile currentLink
      pure false
  | .error _ =>
    removeFile currentLink
    pure false

structure RecoveryReport where
  stagingRemoved : List String := []
  orphansRemoved : List String := []
  currentRepaired : Bool := false
  currentTarget : Option Loc := none

def removeDirs (test : Disk → String → Bool) : List String → Run (List String)
  | [] => pure []
  | name :: names => do
    let d ← look
    if test d name then
      rmtree name
      let removed ← removeDirs test names
      pure (name :: removed)
    else removeDirs test names

def isStagingName (name : String) : Bool := PyText.startswith name "." && PyText.contains ".staging." name

def isStagingDir (d : Disk) (name : String) : Bool := isStagingName name && d.isRealDir name

def repairTarget : Run (Option String) := do
  let versions ← versionDirs
  let newest := newestVersion versions
  pure (if newest = "" then none else some newest)

def repairCurrent (pid : ℕ) (newest : Option String) : Run (Bool × Option Loc) := do
  let d ← look
  let target := match newest with
    | some version => some (Loc.entry version)
    | none => if d.isdir factoryApp then some factoryApp else none
  match target with
  | some target =>
    match ← atomicSymlink pid target currentLink with
    | .ok () => pure (true, some target)
    | .error _ => pure (false, none)
  | none =>
    removeFile currentLink
    pure (true, none)

def sortedNames (names : List String) : List String := names.mergeSort (fun a b => decide (a ≤ b))

def recoverInterrupted (pid : ℕ) : Run RecoveryReport := do
  let d ← look
  if d.releases.isNone then return {}
  match ← listdir with
  | .error _ => pure {}
  | .ok entries =>
    let d ← look
    let dangling := d.islink currentLink && !d.isdir (.entry currentLink)
    let newest ← if dangling then repairTarget else pure none
    let referenced := [symlinkVersion d currentLink, symlinkVersion d previousLink].filter (· ≠ "") ++ newest.toList
    let stagingRemoved ← removeDirs isStagingDir entries
    let versions ← versionDirs
    let orphansRemoved ← removeDirs (fun _ name => !referenced.contains name) versions
    let (repaired, target) ← if dangling then repairCurrent pid newest else pure (false, none)
    pure ⟨sortedNames stagingRemoved, sortedNames orphansRemoved, repaired, target⟩

def defaultPrune (kept : List String) : Run (List String) := do
  let d ← look
  let active := if activeVersion d = "" then [] else [activeVersion d]
  let previous := if d.isdir (.entry previousLink) then [(d.realpath (.entry previousLink)).basename] else []
  match ← listdir with
  | .error _ => pure []
  | .ok entries =>
    removeDirs (fun d name => !(kept ++ active ++ previous).contains name && isVersionDir d name) entries

def markerName (version : String) : String := version ++ ".json"

/-- `record_bad_release`; the marker's text is not modelled, no part of the updater
reads it. -/
def recordBadRelease (pid : ℕ) (version : String) : Run Bool := do
  match ← makedirsIn badDir with
  | .error _ => pure false
  | .ok () =>
    let tmp := tmpLink pid (markerName version)
    match ← openIn badDir tmp with
    | .error _ => pure false
    | .ok () =>
      match ← writeIn badDir tmp with
      | .error _ => pure false
      | .ok () =>
        let done ← replaceIn badDir tmp (markerName version)
        pure done.toBool

def readBadVersions : Run (List String) := do
  let names ← listIn badDir
  pure (((names.toOption.getD []).filter (PyText.endswith · ".json")).filterMap
    (fun name =>
      let version := PyText.dropRight 5 name
      if isSemver version then some version else none))

end PiBuddyCam.Updater
