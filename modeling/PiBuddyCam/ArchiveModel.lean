import Mathlib.Algebra.Ring.Int.Defs
import Mathlib.Data.List.DropRight
import PiBuddyCam.LinkTree
import PiBuddyCam.PyText

/-! The archive part of `updater.py`: the checks on the members of a bundle, and how
`tarfile` extracts them. -/
namespace PiBuddyCam.Archive

open LinkTree

def maxMemberSize : ℤ := 64*1024*1024

def maxTotalExtractedSize : ℤ := 512*1024*1024

def maxArchiveMembers : ℕ := 100000

/-- An attribute of a member: missing, or a value as far as the checks look at it. -/
inductive Attr where
  | missing
  | bool (b : Bool)
  | int (n : ℤ)
  | str (s : String)
  | other
  deriving DecidableEq

def Attr.orZero : Attr → Attr
  | .missing => .int 0
  | a => a

def Attr.text : Attr → String
  | .str s => s
  | _ => ""

/-- The types of `tarfile`; `unknown` is one that it does not support. -/
inductive MemberType where
  | reg | dir | sym | lnk | chr | blk | fifo | unknown
  deriving DecidableEq

structure Member where
  name : Attr
  type : MemberType
  linkname : Attr := .str ""
  mode : Attr := .int 0o644
  uid : Attr := .int 0
  gid : Attr := .int 0
  size : Attr := .int 0
  data : List UInt8 := []

def Member.declaredSize (m : Member) : ℤ :=
  match m.size with
  | .int n => n
  | _ => 0

def parts (text : String) : List String := (text.toList.splitOn '/').map String.ofList

def isabs (text : String) : Bool := PyText.startswith text "/"

def route (text : String) : Route := ⟨isabs text, parts text⟩

def joinPath (base : Route) (text : String) : Route := if isabs text then route text else base.join (parts text)

def collapse : Path → List String → Path
  | cur, [] => cur
  | cur, name :: rest =>
    if name = "" ∨ name = "." then collapse cur rest
    else if name = ".." then collapse cur.dropLast rest
    else collapse (cur ++ [name]) rest

/-- The walk of `os.path.realpath`; `none` is the `ValueError` for an embedded null. -/
def realpathWith {β : Type} (t : LinkTree.Tree β) (jump : Path → String → Route → List String → Option Path) :
    Path → List String → Option Path
  | cur, [] => some cur
  | cur, name :: rest =>
    if name = "" ∨ name = "." then realpathWith t jump cur rest
    else if name = ".." then realpathWith t jump cur.dropLast rest
    else if PyText.contains "\x00" name then none
    else match t.node (cur ++ [name]) with
      | some (.link target) => jump cur name target rest
      | _ => realpathWith t jump (cur ++ [name]) rest

def realpath {β : Type} (t : LinkTree.Tree β) : ℕ → Path → List String → Option Path
  | 0 => realpathWith t (fun cur name _ rest => some (collapse (cur ++ [name]) rest))
  | n+1 => realpathWith t (fun cur _ target rest => realpath t n (target.start cur) (target.parts ++ rest))

def refuse (condition : Bool) (reason : String) : Except String Unit :=
  if condition then .error reason else .ok ()

section Validation

variable {β : Type} (t : LinkTree.Tree β)

/-- `os.path.realpath(os.path.join(base, text))` for a relative text. An exception ends
the validation. -/
def realpathIn (base : Path) (text : String) : Except String Path :=
  match realpath t LinkTree.Tree.maxLinks [] (base ++ parts text) with
  | some p => .ok p
  | none => .error "archive member validation failed"

def within (baseReal targetReal : Path) : Bool := baseReal.isPrefixOf targetReal

def normalized (name : String) : String := PyText.replace name "\\" "/"

def escapes (baseReal : Path) (name : String) : Except String Bool :=
  if name = "" then .ok true
  else if PyText.startswith (normalized name) "/" || isabs name then .ok true
  else if (parts (normalized name)).contains ".." then .ok true
  else do
    let target ← realpathIn t baseReal (normalized name)
    pure (!within baseReal target)

def memberIsDevice (m : Member) : Bool := m.type == .chr || m.type == .blk || m.type == .fifo

def hasSetId (mode : ℤ) : Bool := mode / 1024 % 4 != 0

/-- Where a link leads: a hard link's name is relative to the archive root, a symbolic
link's to the directory of the member. -/
def linkTarget (m : Member) (name linkname : String) (destReal : Path) : Except String Path :=
  if m.type == .lnk then realpathIn t destReal (normalized linkname)
  else do
    let memberTarget ← realpathIn t destReal name
    realpathIn t memberTarget.dropLast (normalized linkname)

def validateLink (m : Member) (name : String) (destReal : Path) : Except String Unit :=
  match m.linkname with
  | .str linkname =>
    if linkname = "" then .error "archive link has no target"
    else if PyText.startswith (normalized linkname) "/" || isabs linkname then .error "archive link target is absolute"
    else if (parts (normalized linkname)).contains ".." then .error "archive link target escapes the destination"
    else do
      let target ← linkTarget t m name linkname destReal
      refuse (!within destReal target) "archive link target escapes the destination"
  | _ => .error "archive link has no target"

def checkMode (m : Member) : Except String Unit :=
  match m.mode.orZero with
  | .int mode => if hasSetId mode then .error "archive member has setuid/setgid bits" else .ok ()
  | _ => .error "archive member mode is invalid"

def checkOwner (m : Member) : Except String Unit :=
  match m.uid.orZero, m.gid.orZero with
  | .int uid, .int gid =>
    if uid ≠ 0 ∨ gid ≠ 0 then .error "archive member has an unexpected owner" else .ok ()
  | _, _ => .error "archive member owner is invalid"

def checkSize (m : Member) : Except String ℤ :=
  match m.size.orZero with
  | .int size =>
    if size < 0 then .error "archive member size is invalid"
    else if size > maxMemberSize then .error "archive member exceeds the size limit"
    else .ok size
  | _ => .error "archive member size is invalid"

def checkLink (m : Member) (name : String) (destReal : Path) : Except String Unit :=
  if m.type == .sym || m.type == .lnk then validateLink t m name destReal else .ok ()

def validateMember (m : Member) (destReal : Path) : Except String ℤ :=
  match m.name with
  | .str name =>
    if name = "" then .error "archive member has no name"
    else do
      refuse (← escapes t destReal name) "archive member path escapes the destination"
      refuse (memberIsDevice m) "archive member is a device or fifo"
      checkMode m
      checkOwner m
      let size ← checkSize m
      checkLink t m name destReal
      pure size
  | _ => .error "archive member has no name"

def validateLoop (destReal : Path) : ℕ → ℤ → List Member → Except String Unit
  | _, _, [] => .ok ()
  | count, total, m :: ms =>
    if count+1 > maxArchiveMembers then .error "archive has too many members"
    else do
      let size ← validateMember t m destReal
      refuse (total+size > maxTotalExtractedSize) "archive exceeds the total size limit"
      validateLoop destReal (count+1) (total+size) ms

def validateArchiveMembers (cwd : Path) (members : Option (List Member)) (dest : String) : Except String Unit :=
  if dest = "" then .error "destination is required"
  else match members with
    | none => .error "archive has no members"
    | some members =>
      match realpath t LinkTree.Tree.maxLinks ((route dest).start cwd) (parts dest) with
      | none => .error "archive member validation failed"
      | some destReal => validateLoop t destReal 0 0 members

end Validation

section Extraction

abbrev Content := List UInt8

abbrev Run := Prog (Call Content) Call.Res

def sys (o : Call Content) : Run o.Res := Prog.op o

def exists? (r : Route) : Run Bool := sys (.exists? r)

def lexists (r : Route) : Run Bool := sys (.lexists r)

def isdir (r : Route) : Run Bool := sys (.isdir r)

def mkdir (r : Route) : Run (Except Fault Unit) := sys (.mkdir r)

def write (r : Route) (data : Content) : Run (Except Fault Unit) := sys (.write r data)

def unlink (r : Route) : Run (Except Fault Unit) := sys (.unlink r)

def symlink (target r : Route) : Run (Except Fault Unit) := sys (.symlink target r)

def link (src r : Route) : Run (Except Fault Unit) := sys (.link src r)

def rstrip (parts : List String) : List String := parts.rdropWhile (· = "")

def makedir (target : Route) : Run (Except Fault Unit) := do
  match ← mkdir target with
  | .error .fileExists => if ← isdir target then pure (.ok ()) else pure (.error .fileExists)
  | result => pure result

def mkdirExistOk (target : Route) : Run (Except Fault Unit) := do
  match ← mkdir target with
  | .ok () => pure (.ok ())
  | .error e => if ← isdir target then pure (.ok ()) else pure (.error e)

/-- `os.makedirs(path, exist_ok=True)` for a path below the destination, which exists;
the components come last first. -/
def makedirs (dest : Route) : List String → Run (Except Fault Unit)
  | [] => pure (.ok ())
  | tail :: head =>
    if tail = "" then makedirs dest head
    else if rstrip head.reverse = [] then mkdirExistOk (dest.join (tail :: head).reverse)
    else do
      if ← exists? (dest.join (rstrip head.reverse)) then mkdirExistOk (dest.join (tail :: head).reverse)
      else match ← makedirs dest head with
        | .error .other => pure (.error .other)
        | _ => if tail = "." then pure (.ok ()) else mkdirExistOk (dest.join (tail :: head).reverse)

def makeUpper (dest : Route) (parts : List String) : Run (Except Fault Unit) := do
  let upper := rstrip parts.dropLast
  if upper = [] then pure (.ok ())
  else if ← exists? (dest.join upper) then pure (.ok ())
  else makedirs dest upper.reverse

def replacing (target : Route) (make : Run (Except Fault Unit)) : Run (Except Fault Unit) := do
  if ← lexists target then
    match ← unlink target with
    | .error e => pure (.error e)
    | .ok () => make
  else make

/-- The members other than hard links; special files are refused by the `data` filter. -/
def makePlain (target : Route) (m : Member) : Run (Except Fault Unit) :=
  match m.type with
  | .dir => makedir target
  | .sym => replacing target (symlink (route m.linkname.text) target)
  | .chr | .blk | .fifo => pure (.error .other)
  | .reg | .lnk | .unknown => write target m.data

def normParts (absolute : Bool) : List String → List String → List String
  | acc, [] => acc
  | acc, name :: rest =>
    if name = "" ∨ name = "." then normParts absolute acc rest
    else if name ≠ ".." ∨ (absolute = false ∧ acc = []) ∨ acc.getLast? = some ".." then
      normParts absolute (acc ++ [name]) rest
    else normParts absolute acc.dropLast rest

def normpath (text : String) : Route := ⟨isabs text, normParts (isabs text) [] (parts text)⟩

/-- A hard link to a name of the archive, or `fallback` where that does not exist. -/
def makeHardlink (dest target : Route) (linkname : String) (fallback : Run (Except Fault Unit)) :
    Run (Except Fault Unit) := do
  if ← exists? (joinPath dest linkname) then replacing target (link (joinPath dest linkname) target)
  else fallback

/-- In place of a hard link: the last member of that name among the earlier ones, which
come last first. -/
def extractEarlier (dest : Route) (below : List String) : List Member → String → Run (Except Fault Unit)
  | [], _ => pure (.error .other)
  | m :: earlier, linkname =>
    if normpath m.name.text = normpath linkname then do
      match ← makeUpper dest below with
      | .error e => pure (.error e)
      | .ok () =>
        if m.type = .lnk then
          makeHardlink dest (dest.join below) m.linkname.text (extractEarlier dest below earlier m.linkname.text)
        else makePlain (dest.join below) m
    else extractEarlier dest below earlier linkname

def extractMember (dest : Route) (earlier : List Member) (m : Member) : Run (Except Fault Unit) := do
  let below := rstrip (parts m.name.text)
  match ← makeUpper dest below with
  | .error e => pure (.error e)
  | .ok () =>
    if m.type = .lnk then
      makeHardlink dest (dest.join below) m.linkname.text (extractEarlier dest below earlier m.linkname.text)
    else makePlain (dest.join below) m

def extractAll (dest : Route) : List Member → List Member → Run (Except Fault Unit)
  | _, [] => pure (.ok ())
  | earlier, m :: ms => do
    match ← extractMember dest earlier m with
    | .error e => pure (.error e)
    | .ok () => extractAll dest (m :: earlier) ms

end Extraction

end PiBuddyCam.Archive
