import Mathlib.Data.List.Dedup
import Mathlib.Logic.Function.Basic
import PiBuddyCam.CrashProg
import PiBuddyCam.PyText

/-! The boot-time migrations of `app/migrations.py`: the files of ROOT that they edit, the record of the ones that
are done, and the runner. A boot is a run that may be cut after any call. -/
namespace PiBuddyCam.Migrations

/-- What is in a regular file: a text, or bytes that do not decode as one. -/
inductive Content where
  | text (t : String)
  | raw (bytes : List UInt8)
  deriving DecidableEq

def Content.append : Content → String → Content
  | .text t, more => .text (t ++ more)
  | .raw bytes, more => .raw (bytes ++ more.toUTF8.toList)

inductive Leaf where
  | dir
  | file (c : Content)
  | device
  deriving DecidableEq

/-- What stands at a path. A link comes with what is found behind it; that two paths lead to one file is left out. -/
inductive Node where
  | leaf (l : Leaf)
  | link (target : String) (behind : Option Leaf)
  deriving DecidableEq

def found : Option Node → Option Leaf
  | none => none
  | some (.leaf l) => some l
  | some (.link _ behind) => behind

def setLeaf (v : Option Node) (l : Leaf) : Option Node :=
  match v with
  | some (.link target _) => some (.link target (some l))
  | _ => some (.leaf l)

def isLink : Option Node → Bool
  | some (.link _ _) => true
  | _ => false

abbrev Root := String → Option Node

/-- The record of the migrations: missing, cut off in the middle, or the document of `_save_state`. -/
inductive StateFile where
  | absent
  | garbled
  | saved (applied : List String)
  deriving DecidableEq

structure Device where
  root : Root
  state : StateFile
  tmp : StateFile

def StateFile.load : StateFile → List String
  | .saved applied => applied.dedup
  | _ => []

inductive Mode where
  | rw
  | ro
  deriving DecidableEq

inductive Op where
  | enter (name : String)
  | look
  | mkdir (path : String)
  | read (path : String)
  | openWrite (path : String)
  | openAppend (path : String)
  | write (path text : String)
  | remove (path : String)
  | symlink (target path : String)
  | daemonReload
  | remount (mode : Mode)
  | loadState
  | makeStateDir
  | openTmp
  | writeTmp (applied : List String)
  | replaceTmp

abbrev Done := Except String Unit

def Res : Op → Type
  | .enter _ => Unit
  | .look => Root
  | .read _ => Except String String
  | .remount _ => Except String Bool
  | .loadState => List String
  | .mkdir _ | .openWrite _ | .openAppend _ | .write _ _ | .remove _ | .symlink _ _ | .daemonReload
  | .makeStateDir | .openTmp | .writeTmp _ | .replaceTmp => Done

/-- How the outside world answers a call: whether it fails, how much a write that fails has written, whether a
program can be started and its exit status. -/
structure Choice where
  fails : Bool := false
  short : ℕ := 0
  error : String := "OSError"
  spawnFails : Bool := false
  success : Bool := true

def universalNewlines : List Char → List Char
  | '\r' :: '\n' :: cs => '\n' :: universalNewlines cs
  | '\r' :: cs => '\n' :: universalNewlines cs
  | c :: cs => c :: universalNewlines cs
  | [] => []

def readText (t : String) : String := String.ofList (universalNewlines t.toList)

namespace Root

def put (r : Root) (path : String) (v : Option Node) : Root := Function.update r path v

def attempt (r : Root) (c : Choice) (r' : Root) : Done × Root := if c.fails then (.error c.error, r) else (.ok (), r')

def mkdir (r : Root) (c : Choice) (path : String) : Done × Root :=
  match found (r path), r path with
  | some .dir, _ => (.ok (), r)
  | _, none => r.attempt c (r.put path (some (.leaf .dir)))
  | _, some _ => (.error c.error, r)

def openFor (r : Root) (c : Choice) (path : String) (keep : Bool) : Done × Root :=
  match found (r path) with
  | some .dir => (.error c.error, r)
  | some .device => r.attempt c r
  | some (.file content) =>
    r.attempt c (r.put path (setLeaf (r path) (.file (if keep then content else .text ""))))
  | none => r.attempt c (r.put path (setLeaf (r path) (.file (.text ""))))

def write (r : Root) (c : Choice) (path text : String) : Done × Root :=
  match found (r path) with
  | some (.file content) =>
    if c.fails then
      (.error c.error, r.put path (setLeaf (r path) (.file (content.append (PyText.take c.short text)))))
    else (.ok (), r.put path (setLeaf (r path) (.file (content.append text))))
  | _ => r.attempt c r

def remove (r : Root) (c : Choice) (path : String) : Done × Root :=
  match r path with
  | none | some (.leaf .dir) => (.error c.error, r)
  | some _ => r.attempt c (r.put path none)

def symlink (r : Root) (c : Choice) (target path : String) : Done × Root :=
  match r path with
  | none => r.attempt c (r.put path (some (.link target (if target = "/dev/null" then some .device else none))))
  | some _ => (.error c.error, r)

def read (r : Root) (c : Choice) (path : String) : Except String String :=
  match found (r path) with
  | some (.file (.text t)) => if c.fails then .error c.error else .ok (readText t)
  | some (.file (.raw _)) => .error "UnicodeDecodeError"
  | _ => .error c.error

def isfile (r : Root) (path : String) : Bool :=
  match found (r path) with
  | some (.file _) => true
  | _ => false

end Root

def Device.onRoot (d : Device) (x : Done × Root) : Done × Device := (x.1, { d with root := x.2 })

def Choice.spawn (c : Choice) {α : Type} (a : α) : Except String α := if c.spawnFails then .error c.error else .ok a

def deviceStep (d : Device) : (o : Op) → Choice → Res o × Device
  | .enter _, _ => ((), d)
  | .look, _ => (d.root, d)
  | .mkdir path, c => d.onRoot (d.root.mkdir c path)
  | .read path, c => (d.root.read c path, d)
  | .openWrite path, c => d.onRoot (d.root.openFor c path false)
  | .openAppend path, c => d.onRoot (d.root.openFor c path true)
  | .write path text, c => d.onRoot (d.root.write c path text)
  | .remove path, c => d.onRoot (d.root.remove c path)
  | .symlink target path, c => d.onRoot (d.root.symlink c target path)
  | .daemonReload, c => (c.spawn (), d)
  | .remount _, c => (c.spawn c.success, d)
  | .loadState, _ => (d.state.load, d)
  | .makeStateDir, c => (if c.fails then .error c.error else .ok (), d)
  | .openTmp, c => if c.fails then (.error c.error, d) else (.ok (), { d with tmp := .garbled })
  | .writeTmp applied, c => if c.fails then (.error c.error, d) else (.ok (), { d with tmp := .saved applied })
  | .replaceTmp, c => if c.fails then (.error c.error, d) else (.ok (), { d with state := d.tmp, tmp := .absent })

def device : Machine Op Res Device Choice := ⟨deviceStep⟩

abbrev Run (α : Type) := Prog Op Res α

def sys (o : Op) : Run (Res o) := Prog.op o

def mkdir (path : String) : Run Done := sys (.mkdir path)
def readFile (path : String) : Run (Except String String) := sys (.read path)
def openWrite (path : String) : Run Done := sys (.openWrite path)
def openAppend (path : String) : Run Done := sys (.openAppend path)
def write (path text : String) : Run Done := sys (.write path text)
def remove (path : String) : Run Done := sys (.remove path)
def symlink (target path : String) : Run Done := sys (.symlink target path)
def daemonReload : Run Done := sys .daemonReload
def look : Run Root := sys .look
def enter (name : String) : Run Unit := sys (.enter name)
def remount (mode : Mode) : Run (Except String Bool) := sys (.remount mode)
def loadState : Run (List String) := sys .loadState
def makeStateDir : Run Done := sys .makeStateDir
def openTmp : Run Done := sys .openTmp
def writeTmp (applied : List String) : Run Done := sys (.writeTmp applied)
def replaceTmp : Run Done := sys .replaceTmp

def makedirs (paths : List String) : Run Done := Prog.foldOk (fun _ path => mkdir path) paths ()

def save (path text : String) : Run Done := (openWrite path).andThen fun _ => write path text

def createMntSdcard : Run (Except String Bool) :=
  (makedirs ["/mnt", "/mnt/sdcard"]).andThen fun _ => do
    let r ← look
    pure (.ok (decide (found (r "/mnt/sdcard") = some .dir)))

def shareConf : String := "/etc/samba/smb-sdcard.conf"
def mainConf : String := "/etc/samba/smb.conf"
def tmpfiles : String := "/etc/tmpfiles.d/pibuddycam-samba.conf"

def shareText : String :=
  "[sdcard]\n   path = /mnt/sdcard\n   browseable = yes\n   read only = no\n   guest ok = yes\n" ++
  "   force user = pibuddycam\n   create mask = 0644\n   directory mask = 0755\n"

def tmpfilesText : String :=
  "# Samba volatile state on the tmpfs /var (pibuddycam appliance).\n" ++
  "d /var/lib/samba          0755 root root -\n" ++ "d /var/lib/samba/private  0700 root root -\n" ++
  "d /var/log/samba          0755 root root -\n" ++ "d /var/cache/samba        0755 root root -\n"

def includeLine : String := "include = /etc/samba/smb-sdcard.conf"

def includeText : String := "\n" ++ includeLine ++ "\n"

def mainText : String := "[global]\n   workgroup = WORKGROUP\n\n" ++ includeLine ++ "\n"

def includeShare : Run Done := do
  let r ← look
  if r.isfile mainConf then
    (readFile mainConf).andThen fun content =>
      if PyText.contains includeLine content then pure (.ok ())
      else (openAppend mainConf).andThen fun _ => write mainConf includeText
  else save mainConf mainText

def installSambaConfig : Run (Except String Bool) :=
  (makedirs ["/etc", "/etc/samba"]).andThen fun _ =>
  (save shareConf shareText).andThen fun _ =>
  includeShare.andThen fun _ =>
  (makedirs ["/etc", "/etc/tmpfiles.d"]).andThen fun _ =>
  (save tmpfiles tmpfilesText).andThen fun _ => pure (.ok true)

def consoleSetup : String := "/etc/systemd/system/console-setup.service"

def maskUnit : Run (Except String Bool) :=
  (makedirs ["/etc", "/etc/systemd", "/etc/systemd/system"]).andThen fun _ =>
  (symlink "/dev/null" consoleSetup).andThen fun _ => pure (.ok true)

def isMask : Option Node → Bool
  | some (.link target _) => target = "/dev/null"
  | _ => false

def maskConsoleSetup : Run (Except String Bool) := do
  let r ← look
  if isMask (r consoleSetup) then return .ok true
  if (found (r consoleSetup)).isSome && !isLink (r consoleSetup) then
    (remove consoleSetup).andThen fun _ => maskUnit
  else maskUnit

inductive Edit where
  | done
  | missing
  | changed (content : String)

/-- The migrations that rewrite one file: nothing to do when the edit is done, a failure when the place for it is
missing. -/
def editFile (path : String) (edit : String → Edit) (reload : Bool) : Run (Except String Bool) := do
  let r ← look
  if r.isfile path then
    (readFile path).andThen fun content =>
      match edit content with
      | .done => pure (.ok true)
      | .missing => pure (.ok false)
      | .changed content =>
        (save path content).andThen fun _ =>
          if reload then daemonReload.andThen fun _ => pure (.ok true) else pure (.ok true)
  else pure (.ok false)

def swapText (old new content : String) : Edit :=
  if PyText.contains new content then .done
  else if PyText.contains old content then .changed (PyText.replace content old new)
  else .missing

def piPersistUseLauncher : Run (Except String Bool) :=
  editFile "/etc/systemd/system/pi-persist.service"
    (swapText "ExecStart=/opt/pibuddycam/venv/bin/python /opt/pibuddycam/persist_restore.py"
      "ExecStart=/opt/pibuddycam/launcher.sh persist_restore.py") true

def helper : String := "/usr/libexec/pibuddycam/pibuddycam-priv"

def pibuddycamPrivNoBlock : Run (Except String Bool) :=
  editFile helper
    (swapText "exec \"$SYSTEMCTL\" start pibuddycam.target" "exec \"$SYSTEMCTL\" --no-block start pibuddycam.target") false

def runtimeMarker : String := "User=pibuddycam\n"

def runtimeAddition : String :=
  "User=pibuddycam\n" ++ "# WP-UI2/AC-4: service-owned runtime dir for the local control socket.\n" ++
  "RuntimeDirectory=pibuddycam\n" ++ "RuntimeDirectoryMode=0750\n"

def addRuntimeDirectory (content : String) : Edit :=
  if PyText.contains "RuntimeDirectory=pibuddycam" content then .done
  else if PyText.contains runtimeMarker content then
    .changed (PyText.replaceOnce content runtimeMarker runtimeAddition)
  else .missing

def runtimeDirectory : Run (Except String Bool) := editFile "/etc/systemd/system/pibuddycam.service" addRuntimeDirectory true

def verbAdditions : List (String × String) :=
  [("check-update", "   check-update)\n" ++
      "      # Report-only: pibuddycam-updater.service runs updater_install.py check.\n" ++
      "      exec \"$SYSTEMCTL\" start pibuddycam-updater.service\n" ++ "      ;;\n"),
    ("reboot", "   reboot)\n" ++ "      exec \"$SYSTEMCTL\" reboot\n" ++ "      ;;\n")]

def hasVerb (content verb : String) : Bool := PyText.contains (verb ++ ")") content

def fallbackMarker : String := "   *)\n      exit 2"

def missingVerbs (content : String) : String :=
  String.ofList ((verbAdditions.filter (fun v => !hasVerb content v.1)).flatMap (fun v => v.2.toList))

def addVerbs (content : String) : Edit :=
  if verbAdditions.all (fun v => hasVerb content v.1) then .done
  else if PyText.contains fallbackMarker content then
    .changed (PyText.replaceOnce content fallbackMarker (missingVerbs content ++ fallbackMarker))
  else .missing

def pibuddycamPrivSystemVerbs : Run (Except String Bool) := editFile helper addVerbs false

structure Migration where
  name : String
  apply : Run (Except String Bool)

def migrations : List Migration :=
  [⟨"001_create_mnt_sdcard", createMntSdcard⟩,
    ⟨"002_install_samba_config", installSambaConfig⟩,
    ⟨"003_mask_console_setup", maskConsoleSetup⟩,
    ⟨"004_pi_persist_use_launcher", piPersistUseLauncher⟩,
    ⟨"005_pibuddycam_priv_no_block", pibuddycamPrivNoBlock⟩,
    ⟨"006_runtime_directory", runtimeDirectory⟩,
    ⟨"007_pibuddycam_priv_system_verbs", pibuddycamPrivSystemVerbs⟩]

/-- An exception that escapes from `run_pending`. -/
inductive Stop where
  | remount (mode : Mode)
  | save (error : String)
  deriving DecidableEq

def saveState (applied : List String) : Run Done :=
  makeStateDir.andThen fun _ =>
  openTmp.andThen fun _ =>
  (writeTmp (applied.mergeSort (fun a b => decide (a ≤ b)))).andThen fun _ => replaceTmp

def completed : Except String Bool → Bool
  | .ok ok => ok
  | .error _ => false

def applyAll : List Migration → List String → List String → Run (List String × List String)
  | [], applied, newly => pure (applied, newly)
  | m :: ms, applied, newly => do
    enter m.name
    let ok ← m.apply
    if completed ok then applyAll ms (applied.insert m.name) (newly ++ [m.name]) else applyAll ms applied newly

def finish (remounted : Bool) (applied newly : List String) : Run (Except Stop (List String)) := do
  let back ← if remounted then remount .ro else pure (.ok true)
  match back with
  | .error _ => pure (.error (.remount .ro))
  | .ok _ =>
    match ← saveState applied with
    | .error e => pure (.error (.save e))
    | .ok () => pure (.ok newly)

def runPending (ms : List Migration) : Run (Except Stop (List String)) := do
  let applied ← loadState
  let pending := ms.filter (fun m => !applied.contains m.name)
  if pending.isEmpty then return .ok []
  match ← remount .rw with
  | .error _ => pure (.error (.remount .rw))
  | .ok remounted =>
    let (applied, newly) ← applyAll pending applied []
    finish remounted applied newly

end PiBuddyCam.Migrations
