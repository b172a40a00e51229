import Mathlib.Data.List.Sort
import PiBuddyCam.ArchiveModel
import PiBuddyCam.OsCalls

/-! `app/factory_reset.py`: the two-step confirmation, the backup, the deletion and the marker. -/
namespace PiBuddyCam.Reset

open LinkTree LinkTree.Os
open Archive (route parts isabs)

/-- The marker as `finalize_after_claimed_boot` reads it; `backupPath` is `none` unless it is a string. -/
structure Marker where
  backupPath : Option String
  timestamp : String := ""

/-- The two roots of the constructor, and what the standard library does: how many links `realpath` follows before it
takes them for a loop, how deep a walk can go, the text of an error, and JSON. `loads` is `none` for a text that is no
JSON object. -/
structure Setup where
  dataRoot : String := "/data"
  durableRoot : String := "/data"
  hops : ℕ := Tree.maxLinks
  enough : Tree.maxLinks ≤ hops := by decide
  depth : ℕ := 64
  strerror : Fault → String := fun _ => "error"
  dumps : List (String × String) → List UInt8 := fun _ => []
  loads : List UInt8 → Option Marker := fun _ => none

def text (r : Route) : String := "/".intercalate r.parts

def within (path root : Path) : Bool := path = root || (root ≠ [] && root.isPrefixOf path)

def stem (parts : List String) : List String := if parts.getLast? = some "" then parts.dropLast else parts

namespace Setup

variable (s : Setup)

def root : Route := route s.dataRoot

def under (names : List String) : Route := ⟨isabs s.dataRoot, stem (parts s.dataRoot) ++ names⟩

def prusaCamDir : Route := s.under ["pibuddycam"]

def configDir : Route := s.under ["pibuddycam", "config"]

def backupsDir : Route := s.under ["pibuddycam", "backups"]

def timelapseDir : Route := s.under ["sdcard", "timelapse"]

def deviceToml : Route := s.under ["pibuddycam", "config", "device.toml"]

def secretsToml : Route := s.under ["pibuddycam", "config", "secrets.toml"]

def stateJson : Route := s.under ["pibuddycam", "state.json"]

def provisioningJson : Route := s.under ["pibuddycam", "provisioning.json"]

def pendingDeletionPath : Route := s.under ["pibuddycam", "pending-deletion.json"]

def temporary : Route := s.under ["pibuddycam", "pending-deletion.json.tmp"]

def real (v : Fs) (r : Route) : Path := v.realpath s.hops r

def realRoot (v : Fs) : Path := s.real v s.root

def safetyReason (v : Fs) : String :=
  if s.dataRoot = "" then "data root is not configured"
  else if isabs s.dataRoot = false then "data root must be an absolute path"
  else if s.durableRoot = "" then "durable root is not configured"
  else if isabs s.durableRoot = false then "durable root must be an absolute path"
  else if within (s.realRoot v) (s.real v (route s.durableRoot)) = false then
    "data root is outside the durable PERSIST root"
  else if v.isdir s.root = false then "data root is not a directory"
  else if v.isdir s.prusaCamDir = false then "durable structure is missing"
  else if within (s.real v s.prusaCamDir) (s.realRoot v) = false then "durable structure escapes the data root"
  else ""

section Backup

def candidate (timestamp : String) : ℕ → String
  | 0 => "factory-reset-" ++ timestamp
  | k+1 => "factory-reset-" ++ timestamp ++ "-" ++ toString (k+2)

def backupAt (name : String) : Route := s.under ["pibuddycam", "backups", name]

def firstFree (v : Fs) (timestamp : String) : ℕ → ℕ → String
  | 0, k => candidate timestamp k
  | tries+1, k =>
    if v.exists? (s.backupAt (candidate timestamp k)) then firstFree v timestamp tries (k+1)
    else candidate timestamp k

def uniqueBackup (v : Fs) (timestamp : String) : String :=
  s.firstFree v timestamp (v.names (s.real v s.backupsDir)).length 0

def cleanupBackup (backup : Route) : Run Unit := do
  let _ ← rmtree true s.depth backup
  pure ()

def isRegular (v : Fs) (r : Route) : Bool :=
  match v.lstat r with
  | some (.file i) => v.data i ≠ .special
  | _ => false

def because (reason : String) (p : Run (Except Fault Unit)) : Run (Except String Unit) := do
  match ← p with
  | .ok () => pure (.ok ())
  | .error e => pure (.error (reason ++ s.strerror e))

def copyFileSafely (source upper : Route) (name : String) : Run (Except String Unit) := do
  let v ← look
  if isRegular v source && within (s.real v source) (s.realRoot v) then
    s.because "could not back up durable data: "
      ((makedirs upper.absolute upper.parts.reverse).andThen fun _ => copyfile source (upper.join [name]))
  else pure (.ok ())

def copyLevel (realRoot : Path) (source destination : Route) (sub dirs files : List String) :
    Run (Except Fault (List Unit × List String)) := do
  let v ← look
  if within (s.real v (source.join sub)) realRoot then
    (makedirs destination.absolute (destination.join sub).parts.reverse).andThen fun _ => do
      let v ← look
      let kept := dirs.filter fun name => !v.islink (source.join (sub ++ [name]))
      (Prog.foldOk (fun _ name => do
        let v ← look
        let file := source.join (sub ++ [name])
        if !v.islink file && within (s.real v file) realRoot then
          copyfile file (destination.join (sub ++ [name]))
        else pure (.ok ())) files ()).andThen fun _ => pure (.ok ([], kept))
  else pure (.ok ([], []))

def copyTreeSafely (source destination : Route) : Run (Except String Unit) := do
  let v ← look
  if v.isdir source && !v.islink source then
    s.because "could not back up the timelapse store: "
      ((walk source (s.copyLevel (s.realRoot v) source destination) s.depth []).andThen fun _ => pure (.ok ()))
  else pure (.ok ())

def copyAll (backup : Route) (includeTimelapse : Bool) : Run (Except String Unit) :=
  (s.copyFileSafely s.deviceToml (backup.join ["config"]) "device.toml").andThen fun _ =>
  (s.copyFileSafely s.secretsToml (backup.join ["config"]) "secrets.toml").andThen fun _ =>
  (s.copyFileSafely s.stateJson backup "state.json").andThen fun _ =>
  (s.copyFileSafely s.provisioningJson backup "provisioning.json").andThen fun _ =>
  if includeTimelapse then s.copyTreeSafely s.timelapseDir (backup.join ["timelapse"]) else pure (.ok ())

def createBackup (timestamp : String) (includeTimelapse : Bool) : Run (Except String Route) := do
  let v ← look
  let backup := s.backupAt (s.uniqueBackup v timestamp)
  match ← s.because "could not create the backup directory: "
      (makedirs backup.absolute (backup.join ["config"]).parts.reverse) with
  | .error reason =>
    s.cleanupBackup backup
    pure (.error reason)
  | .ok () =>
    match ← s.copyAll backup includeTimelapse with
    | .error reason =>
      s.cleanupBackup backup
      pure (.error reason)
    | .ok () => pure (.ok backup)

end Backup

section Deletion

def filesLevel (top : Route) (realRoot : Path) (sub dirs files : List String) :
    Run (Except Fault (List Route × List String)) := do
  let v ← look
  if within (s.real v (top.join sub)) realRoot then
    let (links, kept) := dirs.partition fun name => v.islink (top.join (sub ++ [name]))
    pure (.ok ((links ++ files).map fun name => top.join (sub ++ [name]), kept))
  else pure (.ok ([], []))

def dirsLevel (top : Route) (realRoot : Path) (sub dirs _files : List String) :
    Run (Except Fault (List Route × List String)) := do
  let v ← look
  if within (s.real v (top.join sub)) realRoot then
    let kept := dirs.filter fun name => !v.islink (top.join (sub ++ [name]))
    pure (.ok (if sub = [] then [] else [top.join sub], kept))
  else pure (.ok ([], []))

def iterate (top : Route)
    (level : Path → List String → List String → List String → Run (Except Fault (List Route × List String))) :
    Run (List Route) := do
  let v ← look
  if v.isdir top && !v.islink top then
    match ← walk top (level (s.realRoot v)) s.depth [] with
    | .ok found => pure found
    | .error _ => pure []
  else pure []

def iterFiles (top : Route) : Run (List Route) := s.iterate top (s.filesLevel top)

def iterDirsBottomUp (top : Route) : Run (List Route) := do
  let found ← s.iterate top (s.dirsLevel top)
  pure (found.insertionSort fun a b => b.parts.length ≤ a.parts.length)

def size (v : Fs) (r : Route) : ℕ :=
  match v.lstat r with
  | some (.file i) =>
    match v.data i with
    | .regular bytes => bytes.length
    | .special => 0
  | some (.link target) => (text target).utf8ByteSize
  | _ => 0

def dirname (r : Route) : Route := ⟨r.absolute, r.parts.dropLast⟩

/-- `_delete_file`: the size, or `none` where there is nothing. -/
def deleteFile (path : Route) : Run (Except String (Option ℕ)) := do
  let v ← look
  if v.lexists path = false then pure (.ok none)
  else if within (s.real v (if v.islink path then dirname path else path)) (s.realRoot v) = false then
    pure (.error "refusing to delete outside the data root")
  else match ← remove path with
    | .error e => pure (.error ("could not delete durable data: " ++ s.strerror e))
    | .ok () => pure (.ok (some (size v path)))

def removeEmptyDir (path : Route) : Run Bool := do
  let v ← look
  if within (s.real v path) (s.realRoot v) = false then pure false
  else match ← rmdir path with
    | .error _ => pure false
    | .ok () => pure true

structure Deleted where
  files : List Route := []
  dirs : List Route := []
  fileCount : ℕ := 0
  byteCount : ℕ := 0

def deleteFiles (paths : List Route) : Run (Except String Deleted) :=
  Prog.foldOk (fun done path => (s.deleteFile path).andThen fun size =>
    match size with
    | none => pure (.ok done)
    | some size => pure (.ok { done with
        files := done.files ++ [path], fileCount := done.fileCount+1, byteCount := done.byteCount+size })) paths {}

def removeEmptyDirs (done : Deleted) (paths : List Route) : Run (Except String Deleted) :=
  Prog.foldOk (fun done path => do
    let removed ← s.removeEmptyDir path
    pure (.ok (if removed then { done with dirs := done.dirs ++ [path] } else done))) paths done

def sorted (paths : List Route) : List Route := paths.insertionSort fun a b => text a ≤ text b

def timelapseFiles (includeTimelapse : Bool) : Run (List Route) :=
  if includeTimelapse then s.iterFiles s.timelapseDir else pure []

def deleteTargets (includeTimelapse : Bool) : Run (Except String Deleted) := do
  let config ← s.iterFiles s.configDir
  let v ← look
  let single := [s.stateJson, s.provisioningJson].filter fun path => v.lexists path
  let timelapse ← s.timelapseFiles includeTimelapse
  (s.deleteFiles (sorted (config ++ single ++ timelapse).dedup)).andThen fun done => do
    let configDirs ← s.iterDirsBottomUp s.configDir
    (s.removeEmptyDirs done configDirs).andThen fun done =>
      if includeTimelapse then do
        let timelapseDirs ← s.iterDirsBottomUp s.timelapseDir
        s.removeEmptyDirs done timelapseDirs
      else pure (.ok done)

end Deletion

section Marker

def writePendingDeletion (backup : Route) (timestamp createdAt : String) : Run (Except String Unit) := do
  let payload := [("backup_path", text backup), ("created_at", createdAt), ("timestamp", timestamp)]
  match ← (write s.temporary (s.dumps payload)).andThen fun _ => replace s.temporary s.pendingDeletionPath with
  | .ok () => pure (.ok ())
  | .error e => do
    let _ ← remove s.temporary
    pure (.error ("pending deletion marker could not be written: " ++ s.strerror e))

def pendingDeletion (v : Fs) : Option Marker :=
  match v.stat s.pendingDeletionPath with
  | some (.file i) =>
    match v.data i with
    | .regular bytes => s.loads bytes
    | .special => none
  | _ => none

end Marker

end Setup

structure Report where
  ok : Bool
  reason : String := ""
  backupPath : String := ""
  deleted : List String := []
  deletedDirs : List String := []
  fileCount : ℕ := 0
  byteCount : ℕ := 0
  timestamp : String := ""
  pendingDeletionPath : String := ""

structure FinalizeReport where
  ok : Bool
  deleted : Bool := false
  reason : String := ""
  backupPath : String := ""
  timestamp : String := ""

/-- What the clock says when it is asked: the timestamp in the name of the backup, which has no slash, and the time in
the marker. -/
structure Times where
  timestamp : String
  createdAt : String := ""

def refused (reason timestamp : String) : Report := { ok := false, reason := reason, timestamp := timestamp }

namespace Setup

variable (s : Setup)

def perform (times : Times) (includeTimelapse : Bool) : Run Report := do
  let v ← look
  if s.safetyReason v ≠ "" then pure (refused (s.safetyReason v) "")
  else match ← s.createBackup times.timestamp includeTimelapse with
    | .error reason => pure (refused reason times.timestamp)
    | .ok backup =>
      match ← s.deleteTargets includeTimelapse with
      | .error reason =>
        pure { ok := false, reason := reason, backupPath := text backup, timestamp := times.timestamp }
      | .ok done =>
        let report : Report :=
          { ok := true
            reason := "factory reset complete; backup retained until a claimed boot"
            backupPath := text backup
            deleted := (sorted done.files).map text
            deletedDirs := (sorted done.dirs).map text
            fileCount := done.fileCount
            byteCount := done.byteCount
            timestamp := times.timestamp
            pendingDeletionPath := text s.pendingDeletionPath }
        match ← s.writePendingDeletion backup times.timestamp times.createdAt with
        | .error reason => pure { report with ok := false, reason := reason, pendingDeletionPath := "" }
        | .ok () => pure report

/-- `finalize_after_claimed_boot`; `none` is the `ValueError` of `realpath` for an embedded null. -/
def finalizeAfterClaimedBoot (claimed : Bool) : Run (Option FinalizeReport) := do
  let v ← look
  if s.safetyReason v ≠ "" then pure (some { ok := false, reason := s.safetyReason v })
  else match s.pendingDeletion v with
    | none => pure (some { ok := true, reason := "no pending deletion" })
    | some marker =>
      match marker.backupPath.filter (· ≠ "") with
      | none =>
        pure (some { ok := false, reason := "pending deletion marker is malformed", timestamp := marker.timestamp })
      | some backupPath =>
        let report (ok deleted : Bool) (reason : String) : Option FinalizeReport :=
          some { ok := ok, deleted := deleted, reason := reason, backupPath := backupPath, timestamp := marker.timestamp }
        let backup := route backupPath
        if v.islink backup then pure (report false false "refusing to delete a backup that is a symbolic link")
        else if PyText.contains "\x00" backupPath then pure none
        else if !within (s.real v backup) (s.realRoot v) || !within (s.real v backup) (s.real v s.backupsDir) then
          pure (report false false "refusing to delete a backup outside the data root")
        else if !claimed then pure (report true false "backup retained until a successful claimed boot")
        else if v.exists? backup then do
          match ← rmtree false s.depth backup with
          | .error e => pure (report false false ("backup could not be deleted: " ++ s.strerror e))
          | .ok () => do
            let _ ← remove s.pendingDeletionPath
            pure (report true true "backup deleted after a successful claimed boot")
        else do
          let _ ← remove s.pendingDeletionPath
          pure (report true true "backup deleted after a successful claimed boot")

end Setup

structure FactoryReset where
  token : String := ""
  begun : Bool := false
  confirmed : Bool := false
  reason : String := ""
  lastReport : Option Report := none

namespace FactoryReset

/-- `begin`, with the token that the factory yields; a reason that is no string is `none`. -/
def begin (f : FactoryReset) (drawn : String) (reason : Option String) : FactoryReset :=
  { f with token := drawn, begun := true, confirmed := false, reason := reason.getD "" }

/-- `confirm`; a token that is no string is `none`. -/
def confirm (f : FactoryReset) (token : Option String) : Bool × FactoryReset :=
  match token with
  | none => (false, f)
  | some token =>
    if f.begun = false ∨ token = "" ∨ token ≠ f.token then (false, f) else (true, { f with confirmed := true })

def gate (f : FactoryReset) (token : Option String) : Option String :=
  if f.begun = false then some "factory reset requires two-step confirmation: begin() first"
  else if f.confirmed = false then some "factory reset requires the second confirmation: confirm(token) first"
  else if token ≠ some f.token then some "reset token does not match the confirmed token"
  else none

def execute (s : Setup) (f : FactoryReset) (token : Option String) (includeTimelapse : Bool) (times : Times) :
    Run (Report × FactoryReset) :=
  match f.gate token with
  | some reason => pure (refused reason "", { f with lastReport := some (refused reason "") })
  | none => do
    let report ← s.perform times includeTimelapse
    pure (report, { f with token := "", begun := false, confirmed := false, lastReport := some report })

end FactoryReset

end PiBuddyCam.Reset
