import Mathlib.Data.Rat.Defs
import PiBuddyCam.CrashProg
import PiBuddyCam.PyNumber

/-! The network side of the device: what `wifi_station.py`, `network_apply.py`,
`network_settings.py` and `network_watchdog.py` ask of it and what its files hold. Commands
return anything; of what `nmcli` does only the stored profile counts. -/
namespace PiBuddyCam.Network

abbrev Time := ℚ

def connectionName : String := "pibuddycam-station"

/-- What a call of the runner comes to. The code is `none` when the result has no integer one. -/
inductive Outcome where
  | timedOut
  | unavailable
  | raised (cls : String)
  | done (code : Option ℤ) (stdout : String)
  deriving DecidableEq

/-- A text given as a key. One with lone surrogates cannot be encoded; of it only the length
counts. -/
inductive Key where
  | text (s : String)
  | surrogates (n : ℕ)
  deriving DecidableEq

def Key.length : Key → ℕ
  | .text s => s.length
  | .surrogates n => n

def Key.given (k : Key) : Bool := k.length ≠ 0

/-- The `ipv4` argument of `wifi_station.apply`: nothing or an empty dictionary, one whose method
is not `manual`, or a static profile, of which keys may be missing. -/
inductive Ipv4 where
  | unset
  | auto
  | manual (address prefixLength gateway : Option String) (dns : List String)

structure Static where
  address : String
  prefixLength : ℕ
  gateway : String
  dns : List String
  deriving DecidableEq

/-- A validated request; `static` is there when the method is `manual`. -/
structure Request where
  ssid : String
  psk : Key
  static : Option Static := none
  deriving DecidableEq

inductive ResultState where
  | applying | applied | reverted | hotspot
  deriving DecidableEq

structure Report where
  state : ResultState
  reason : String
  updatedAt : Time
  deriving DecidableEq

/-- The watchdog's counters; a missing or unreadable file is the empty state. -/
structure Watch where
  hotspot : Bool := false
  lastRetry : Option Time := none
  downSince : Option Time := none
  since : Option Time := none
  deriving DecidableEq

/-- What the helper answers to a request: the unit was queued, or a failure with its reason. -/
inductive Submitted where
  | ok
  | failed (reason : String)
  deriving DecidableEq

inductive Written where
  | ok
  | osError
  | unencodable
  deriving DecidableEq

inductive Op where
  | command (args : List String)
  | log (text : String)
  -- the credential file
  | tempDir
  | writableDir (dir : String)
  | mkstemp (dir : String)
  | fchmod (path : String)
  | writeCredential (path : String) (content : Option String)
  | close
  | remove (path : String)
  -- the keyfile of the stored profile
  | readKeyfile
  | openRestore
  | writeRestore (content : String)
  | replaceKeyfile
  -- the result document, the clocks and the hotspot
  | writeResult (report : Report)
  | readResult
  | clock
  | monotonic
  | sleep
  | startHotspot
  | stopHotspot
  -- the watchdog's counters
  | loadWatch
  | saveWatch (watch : Watch)
  -- the console
  | submit (id : ℕ) (request : Request)
  | savePair (id : ℕ) (key : Key)

/-- What the calls return. Those that write a file give the class of the error they raise, those
that start or stop the hotspot may raise too; the others say with `false` or `none` that they fail. -/
def Res : Op → Type
  | .command _ => Outcome
  | .log _ | .close | .sleep => Unit
  | .tempDir | .mkstemp _ | .readKeyfile => Option String
  | .writableDir _ | .fchmod _ | .remove _ | .savePair _ _ => Bool
  | .openRestore | .writeRestore _ | .replaceKeyfile | .writeResult _ | .saveWatch _ => Option String
  | .writeCredential _ _ => Written
  | .readResult => Option Report
  | .clock | .monotonic => Time
  | .startHotspot | .stopHotspot => Except String Bool
  | .loadWatch => Watch
  | .submit _ _ => Submitted

structure Choice where
  /-- The class of the error that the call raises, where it can. -/
  failed : Option String := none
  outcome : Outcome := .done (some 0) ""
  /-- What a command that edits the profile stores, if anything. -/
  stores : Option String := none
  /-- Whether `nmcli connection delete` deletes. -/
  deletes : Bool := true
  tempDir : Option String := some "/tmp"
  path : String := "/run/pibuddycam-psk-0"
  /-- What is left in a file by a write that fails. -/
  left : String := ""
  removed : Bool := true
  readable : Bool := true
  time : Time := 0
  hotspot : Except String Bool := .ok true
  submitted : Submitted := .ok

def Choice.ok (c : Choice) : Bool := c.failed.isNone

/-- The files. A request carries the number of the console's call that stored it. -/
structure Net where
  credentials : String → Option String := fun _ => none
  keyfile : Option String := none
  restore : Option String := none
  result : Option Report := none
  watch : Watch := {}
  request : Option (ℕ × Request) := none
  queued : Bool := false

def deleteCommand : List String := ["nmcli", "connection", "delete", connectionName]

def edits (args : List String) : Bool :=
  args.take 3 = ["nmcli", "connection", "add"] || args.take 3 = ["nmcli", "connection", "modify"] ||
    args.take 5 = ["nmcli", "connection", "up", connectionName, "passwd-file"]

def Net.afterCommand (net : Net) (args : List String) (c : Choice) : Net :=
  if args = deleteCommand then { net with keyfile := if c.deletes then none else net.keyfile }
  else if edits args then { net with keyfile := c.stores <|> net.keyfile }
  else net

def Net.step (net : Net) : (o : Op) → Choice → Res o × Net
  | .command args, c => (c.outcome, net.afterCommand args c)
  | .log _, _ | .close, _ | .sleep, _ => ((), net)
  | .tempDir, c => (c.tempDir, net)
  | .writableDir _, c | .fchmod _, c => (c.ok, net)
  | .mkstemp _, c =>
    if c.ok then (some c.path, { net with credentials := Function.update net.credentials c.path (some "") })
    else (none, net)
  | .writeCredential path content, c =>
    match content with
    | none => (.unencodable, { net with credentials := Function.update net.credentials path (some c.left) })
    | some text =>
      (if c.ok then .ok else .osError,
        { net with credentials := Function.update net.credentials path (some (if c.ok then text else c.left)) })
  | .remove path, c =>
    (c.removed, if c.removed then { net with credentials := Function.update net.credentials path none } else net)
  | .readKeyfile, c => (if c.readable then net.keyfile else none, net)
  | .openRestore, c => (c.failed, if c.ok then { net with restore := some "" } else net)
  | .writeRestore content, c => (c.failed, { net with restore := some (if c.ok then content else c.left) })
  | .replaceKeyfile, c => (c.failed, if c.ok then { net with keyfile := net.restore, restore := none } else net)
  | .writeResult report, c => (c.failed, if c.ok then { net with result := some report } else net)
  | .readResult, c => (if c.ok then net.result else none, net)
  | .clock, c | .monotonic, c => (c.time, net)
  | .startHotspot, c | .stopHotspot, c => (c.hotspot, net)
  | .loadWatch, c => (if c.ok then net.watch else {}, net)
  | .saveWatch watch, c => (c.failed, if c.ok then { net with watch := watch } else net)
  | .submit id request, c =>
    (c.submitted, if c.submitted = .ok then { net with request := some (id, request), queued := true } else net)
  | .savePair _ _, c => (c.ok, net)

def device : Machine Op Res Net Choice := ⟨Net.step⟩

abbrev Run := Prog Op Res

def sys (o : Op) : Run (Res o) := Prog.op o

theorem sys_within {P : Op → Prop} {o : Op} (ho : P o) : (sys o).Within P := ⟨ho, fun _ => trivial⟩

def isBreak (c : Char) : Bool :=
  [0x0a, 0x0b, 0x0c, 0x0d, 0x1c, 0x1d, 0x1e, 0x85, 0x2028, 0x2029].contains c.toNat

def splitlinesFrom (line : List Char) : List Char → List (List Char)
  | [] => if line = [] then [] else [line.reverse]
  | '\r' :: '\n' :: cs => line.reverse :: splitlinesFrom [] cs
  | c :: cs => if isBreak c then line.reverse :: splitlinesFrom [] cs else splitlinesFrom (c :: line) cs

def dropIndex (key : List Char) : List Char :=
  match key.reverse with
  | ']' :: rest =>
    let digits := rest.takeWhile fun c => (PyText.decimal c).isSome
    match rest.drop digits.length with
    | '[' :: name => if digits = [] then key else name.reverse
    | _ => key
  | _ => key

/-- `_split_terse`, with the index dropped from the key; `none` for a line that is passed over. -/
def splitTerse (line : List Char) : Option (String × String) :=
  match line.dropWhile (· ≠ ':') with
  | [] => none
  | _ :: rest =>
    let key := PyText.strip (String.ofList (line.takeWhile (· ≠ ':')))
    let value := PyText.strip (PyText.replace (PyText.replace (String.ofList rest) "\\:" ":") "\\\\" "\\")
    if key = "" ∨ value = "" then none else some (String.ofList (dropIndex key.toList), value)

def terseMap (text : String) : List (String × String) := (splitlinesFrom [] text.toList).filterMap splitTerse

def first (fields : List (String × String)) (key : String) : String := (fields.lookup key).getD ""

end PiBuddyCam.Network
