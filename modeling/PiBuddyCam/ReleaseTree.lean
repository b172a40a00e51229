import PiBuddyCam.CrashProg
import PiBuddyCam.OrderedDict
import PiBuddyCam.UpdaterManifest

/-! The files that the updater works on, and one operation for each call that it
makes to the system. A `Choice` settles what the call finds outside the model. -/
namespace PiBuddyCam.Updater

/-- An absolute path: an entry of the releases directory, or a place outside it. -/
inductive Loc where
  | entry (name : String)
  | outside (path : String)
  deriving DecidableEq

/-- An entry of the releases directory. A directory is known by the files in it. -/
inductive Node where
  | dir (files : List String)
  | link (target : Loc)
  | file
  deriving DecidableEq

/-- The releases directory, `none` while it does not exist, and the directories that
exist elsewhere. -/
structure Disk where
  releases : Option (OrderedDict String Node)
  outsideDirs : List String

def factoryApp : Loc := .outside "/opt/pibuddycam"

namespace Disk

def node (d : Disk) (name : String) : Option Node := d.releases.bind (·.get? name)

def put (d : Disk) (name : String) (n : Node) : Disk :=
  { d with releases := some ((d.releases.getD .empty).set name n) }

def del (d : Disk) (name : String) : Disk := { d with releases := d.releases.map (·.pop name) }

def follow (d : Disk) : ℕ → Loc → Loc
  | 0, l => l
  | _, .outside path => .outside path
  | fuel+1, .entry name =>
    match d.node name with
    | some (.link target) => d.follow fuel target
    | _ => .entry name

def realpath (d : Disk) (l : Loc) : Loc := d.follow 40 l

def isdir (d : Disk) (l : Loc) : Bool :=
  match d.realpath l with
  | .outside path => d.outsideDirs.contains path
  | .entry name =>
    match d.node name with
    | some (.dir _) => true
    | _ => false

def exists? (d : Disk) (l : Loc) : Bool :=
  match d.realpath l with
  | .outside path => d.outsideDirs.contains path
  | .entry name =>
    match d.node name with
    | some (.dir _) => true
    | some .file => true
    | _ => false

def islink (d : Disk) (name : String) : Bool :=
  match d.node name with
  | some (.link _) => true
  | _ => false

def isRealDir (d : Disk) (name : String) : Bool :=
  match d.node name with
  | some (.dir _) => true
  | _ => false

variable (d : Disk) (name : String)

theorem node_put (n : Node) (x : String) :
    (d.put name n).node x = if x = name then some n else d.node x := by
  simp only [node, put, Option.bind_some]
  rw [OrderedDict.get?_set]
  split_ifs with h
  · rfl
  · cases hd : d.releases with
    | none => rfl
    | some e => rfl

@[simp] theorem node_put_self (n : Node) :
    (d.put name n).node name = some n := by rw [node_put, if_pos rfl]

theorem node_put_of_ne (n : Node) {x : String} (h : x ≠ name) :
    (d.put name n).node x = d.node x := by rw [node_put, if_neg h]

@[simp] theorem node_del_self : (d.del name).node name = none := by
  unfold node del
  cases d.releases with
  | none => rfl
  | some e => simp only [Option.map_some, Option.bind_some, OrderedDict.get?_pop_self]

theorem node_del_of_ne {name x : String} (h : x ≠ name) :
    (d.del name).node x = d.node x := by
  unfold node del
  cases d.releases with
  | none => rfl
  | some e => simp only [Option.map_some, Option.bind_some, OrderedDict.get?_pop_of_ne _ h]

end Disk

/-- What an injected callable does: raise, or return a tuple, `None` or anything else. -/
inductive Raw where
  | raised (error : String)
  | tuple (items : List Val)
  | none
  | scalar (v : Val)
  deriving DecidableEq

/-- What `free_space` does: raise, return something that is no number, a number, or a
float that `int` refuses. -/
inductive FreeSpace where
  | raised
  | notNumber
  | number (n : ℤ)
  | notFinite (error : String)
  deriving DecidableEq

/-- The injected callables, with what they are called on. A bundle is named by its path
below the staging directory that the download put it into. -/
inductive Effect where
  | download (manifest : Manifest) (staging : String)
  | verifyManifestSignature (manifest : Manifest) (staging : String)
  | verifyBundleSignature (staging bundle : String)
  | extract (staging bundle expectedSha256 : String)
  | stopServices
  | buildVenv (staging : String) (manifest : Manifest)
  | preflight (staging : String) (manifest : Manifest)
  | switch (staging version : String)
  | restartServices (version : String)
  | healthCheck (version : String)
  | recordBad (version : String) (reason : Val)
  | prune (kept : List String)
  | verifyFile
  deriving DecidableEq

def Effect.staging : Effect → Option String
  | .download _ st | .verifyManifestSignature _ st | .extract st _ _ | .buildVenv st _ | .preflight st _ => some st
  | _ => none

/-- The Home Assistant update-state document. The updater's commands write it with
`in_progress` false and no percentage. -/
structure UpdateState where
  installedVersion : String
  latestVersion : String
  releaseSummary : String
  releaseUrl : String
  deriving DecidableEq

/-- The last-check file: missing or no timestamp, bytes that do not decode, a time. -/
inductive LastCheck where
  | absent
  | garbled
  | at (epoch : ℚ)
  deriving DecidableEq

structure World where
  disk : Disk
  lastCheck : LastCheck
  updateState : Option UpdateState

inductive Op where
  | look
  | listdir
  | readlink (name : String)
  | makedirs
  | mkdtemp (stem : String)
  | chmod (name : String)
  | rename (src dst : String)
  | symlink (target : Loc) (name : String)
  | replace (src dst : String)
  | remove (name : String)
  | listIn (name : String)
  | removeIn (name file : String)
  | rmdir (name : String)
  | makedirsIn (name : String)
  | openIn (name file : String)
  | writeIn (name file : String)
  | replaceIn (name src dst : String)
  | isfile (name file : String)
  | getsize (name file : String)
  | effect (e : Effect)
  | freeSpace
  | clock
  | sleep (seconds : ℚ)
  | uniform
  | readLastCheck
  | writeLastCheck (now : ℚ)
  | writeUpdateState (doc : UpdateState)
  | applicationVersion
  | makeTemp
  | fetchManifest
  | manifestIsFile
  | readManifest
  deriving DecidableEq

abbrev Done := Except String Unit

def Res : Op → Type
  | .look => Disk
  | .listdir | .listIn _ => Except String (List String)
  | .readlink _ => Except String Loc
  | .mkdtemp _ => Except String String
  | .makedirs | .chmod _ | .rename _ _ | .symlink _ _ | .replace _ _ | .remove _ | .removeIn _ _ | .rmdir _
  | .makedirsIn _ | .openIn _ _ | .writeIn _ _ | .replaceIn _ _ _ | .writeLastCheck _ | .writeUpdateState _
  | .makeTemp => Done
  | .isfile _ _ | .sleep _ | .manifestIsFile => Bool
  | .getsize _ _ => Except String ℕ
  | .effect _ => Raw
  | .freeSpace => FreeSpace
  | .clock => ℚ
  | .uniform => Option ℚ
  | .readLastCheck => Except String (Option ℚ)
  | .applicationVersion => String
  | .fetchManifest => Except String (List UInt8)
  | .readManifest => Except String (Option String)

/-- How the outside world answers one call: whether a change, a removal or a read
fails, and what there is to find. -/
structure Choice where
  fails : Bool := false
  removeFails : Bool := false
  readFails : Bool := false
  error : String := "OSError"
  raw : Raw := .none
  files : List String := []
  suffix : String := ""
  order : List String := []
  free : FreeSpace := .number 0
  size : ℕ := 0
  time : ℚ := 0
  offset : Option ℚ := none
  found : Bool := true
  payload : List UInt8 := []
  text : Option String := none

def Choice.arrange (c : Choice) (names : List String) : List String :=
  if c.order.isPerm names then c.order else names

/-- `os.rename` and `os.replace` put a directory only where nothing or an empty
directory is, and anything else only where no directory is. -/
def Node.mayReplace : Node → Option Node → Bool
  | .dir _, none => true
  | .dir _, some (.dir []) => true
  | .dir _, some _ => false
  | _, some (.dir _) => false
  | _, _ => true

namespace Disk

def attempt (d : Disk) (fails : Bool) (c : Choice) (allowed : Bool) (d' : Disk) : Done × Disk :=
  if allowed && !fails then (.ok (), d') else (.error c.error, d)

def makedirs (d : Disk) (c : Choice) : Done × Disk :=
  if d.releases.isSome then (.ok (), d) else d.attempt c.fails c true { d with releases := some .empty }

def mkdtemp (d : Disk) (c : Choice) (stem : String) : Except String String × Disk :=
  let name := stem ++ c.suffix
  if d.releases.isSome && (d.node name).isNone && !c.fails then (.ok name, d.put name (.dir []))
  else (.error c.error, d)

def symlink (d : Disk) (c : Choice) (target : Loc) (name : String) : Done × Disk :=
  d.attempt c.fails c (d.releases.isSome && (d.node name).isNone) (d.put name (.link target))

def move (d : Disk) (c : Choice) (src dst : String) : Done × Disk :=
  match d.node src with
  | none => (.error c.error, d)
  | some n => d.attempt c.fails c (n.mayReplace (d.node dst)) ((d.del src).put dst n)

def remove (d : Disk) (c : Choice) (name : String) : Done × Disk :=
  match d.node name with
  | some (.link _) | some .file => d.attempt c.removeFails c true (d.del name)
  | _ => (.error c.error, d)

def rmdir (d : Disk) (c : Choice) (name : String) : Done × Disk :=
  match d.node name with
  | some (.dir []) => d.attempt c.removeFails c true (d.del name)
  | _ => (.error c.error, d)

def makedirsIn (d : Disk) (c : Choice) (name : String) : Done × Disk :=
  if d.isdir (.entry name) then (.ok (), d)
  else d.attempt c.fails c (d.node name).isNone (d.put name (.dir []))

def changeFiles (d : Disk) (fails : Bool) (c : Choice) (name : String) (allowed : List String → Bool)
    (change : List String → List String) : Done × Disk :=
  match d.node name with
  | some (.dir files) => d.attempt fails c (allowed files) (d.put name (.dir (change files)))
  | _ => (.error c.error, d)

def files? (d : Disk) (name : String) : Option (List String) :=
  match d.node name with
  | some (.dir files) => some files
  | _ => none

def leaveIn (d : Disk) (c : Choice) : Option String → Disk
  | none => d
  | some staging => if d.isRealDir staging then d.put staging (.dir c.files) else d

end Disk

def Choice.read (c : Choice) {α : Type} : Option α → Except String α
  | some a => if c.readFails then .error c.error else .ok a
  | none => .error c.error

def World.onDisk (w : World) {α : Type} (r : α × Disk) : α × World := (r.1, { w with disk := r.2 })

def worldStep (w : World) : (o : Op) → Choice → Res o × World
  | .look, _ => (w.disk, w)
  | .listdir, c => (c.read (w.disk.releases.map (fun e => c.arrange e.keys)), w)
  | .readlink name, c =>
    (c.read (match w.disk.node name with
      | some (.link target) => some target
      | _ => none), w)
  | .makedirs, c => w.onDisk (w.disk.makedirs c)
  | .mkdtemp stem, c => w.onDisk (w.disk.mkdtemp c stem)
  | .chmod name, c => w.onDisk (w.disk.attempt c.fails c (w.disk.exists? (.entry name)) w.disk)
  | .rename src dst, c => w.onDisk (w.disk.move c src dst)
  | .symlink target name, c => w.onDisk (w.disk.symlink c target name)
  | .replace src dst, c => w.onDisk (w.disk.move c src dst)
  | .remove name, c => w.onDisk (w.disk.remove c name)
  | .listIn name, c => (c.read ((w.disk.files? name).map c.arrange), w)
  | .removeIn name file, c =>
    w.onDisk (w.disk.changeFiles c.removeFails c name (fun files => files.contains file)
      (fun files => files.filter (· ≠ file)))
  | .rmdir name, c => w.onDisk (w.disk.rmdir c name)
  | .makedirsIn name, c => w.onDisk (w.disk.makedirsIn c name)
  | .openIn name file, c =>
    w.onDisk (w.disk.changeFiles c.fails c name (fun _ => true)
      (fun files => if files.contains file then files else files ++ [file]))
  | .writeIn name file, c => w.onDisk (w.disk.changeFiles c.fails c name (fun files => files.contains file) id)
  | .replaceIn name src dst, c =>
    w.onDisk (w.disk.changeFiles c.fails c name (fun files => files.contains src)
      (fun files => files.filter (fun f => f ≠ src && f ≠ dst) ++ [dst]))
  | .isfile name file, _ => ((w.disk.files? name).any (·.contains file), w)
  | .getsize name file, c =>
    (c.read (if (w.disk.files? name).any (·.contains file) then some c.size else none), w)
  | .effect e, c => (c.raw, { w with disk := w.disk.leaveIn c e.staging })
  | .freeSpace, c => (c.free, w)
  | .clock, c => (c.time, w)
  | .sleep _, c => (!c.fails, w)
  | .uniform, c => (c.offset, w)
  | .readLastCheck, c =>
    (match w.lastCheck with
      | .absent => .ok none
      | .garbled => if c.readFails then .ok none else .error "UnicodeDecodeError"
      | .at epoch => if c.readFails then .ok none else .ok (some epoch), w)
  | .writeLastCheck now, c =>
    if c.fails then (.error c.error, w) else (.ok (), { w with lastCheck := .at now })
  | .writeUpdateState doc, c =>
    if c.fails then (.error c.error, w) else (.ok (), { w with updateState := some doc })
  | .applicationVersion, c => (c.text.getD "", w)
  | .makeTemp, c => (if c.fails then .error c.error else .ok (), w)
  | .fetchManifest, c => (if c.fails then .error c.error else .ok c.payload, w)
  | .manifestIsFile, c => (c.found, w)
  | .readManifest, c => (if c.fails then .error c.error else .ok c.text, w)

def releaseTree : Machine Op Res World Choice := ⟨worldStep⟩

end PiBuddyCam.Updater
