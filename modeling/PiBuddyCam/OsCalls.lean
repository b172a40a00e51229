import PiBuddyCam.Volume

/-! What Python's `os` and `shutil` make of the calls on a volume, by path: directories with
those above them, copies, walks, and the removal of trees. -/
namespace LinkTree

inductive Content where
  | regular (bytes : List UInt8)
  | special
  deriving DecidableEq

def Route.rstrip (r : Route) : Route := ⟨r.absolute, r.parts.rdropWhile (· = "")⟩

namespace Os

abbrev Fs := Volume Content

abbrev Run := Prog (Act Content) Act.Res

def sys (o : Act Content) : Run o.Res := Prog.op o

def look : Run Fs := sys .look

def scan (p : Path) : Run (Except Fault (List String)) := sys (.scan p)

def rmdirAt (p : Path) : Run (Except Fault Unit) := sys (.rmdir p)

def removeAt (p : Path) : Run (Except Fault Unit) := sys (.remove p)

def onEntry (r : Route) (act : Path → Run (Except Fault Unit)) : Run (Except Fault Unit) := do
  let v ← look
  match v.entry r with
  | none => pure (.error .other)
  | some p => act p

def mkdir (r : Route) : Run (Except Fault Unit) := onEntry r fun p => sys (.mkdir p)

def remove (r : Route) : Run (Except Fault Unit) := onEntry r removeAt

def rmdir (r : Route) : Run (Except Fault Unit) := onEntry r.rstrip rmdirAt

def replace (src dst : Route) : Run (Except Fault Unit) :=
  onEntry src fun p => onEntry dst fun q => sys (.replace p q)

def write (r : Route) (bytes : List UInt8) : Run (Except Fault Unit) := do
  let v ← look
  match v.locate true r with
  | none => pure (.error .other)
  | some p => sys (.write p (.regular bytes))

def mkdirExistOk (r : Route) : Run (Except Fault Unit) := do
  match ← mkdir r with
  | .ok () => pure (.ok ())
  | .error e =>
    let v ← look
    pure (if v.isdir r then .ok () else .error e)

def makedirs (absolute : Bool) : List String → Run (Except Fault Unit)
  | [] => mkdirExistOk ⟨absolute, []⟩
  | tail :: head => do
    let v ← look
    if head = [] ∨ v.exists? ⟨absolute, head.reverse⟩ then mkdirExistOk ⟨absolute, (tail :: head).reverse⟩
    else match ← makedirs absolute head with
      | .error .other => pure (.error .other)
      | _ => mkdirExistOk ⟨absolute, (tail :: head).reverse⟩

/-- The bytes of a file that `copyfile` copies to `dst`: not from a special file nor onto one or itself. -/
def copiedBytes (v : Fs) (src dst : Route) : Option (List UInt8) :=
  match v.stat src with
  | some (.file i) =>
    match v.data i with
    | .special => none
    | .regular bytes =>
      match v.stat dst with
      | some (.file j) => if j = i ∨ v.data j = .special then none else some bytes
      | _ => some bytes
  | _ => none

def copyfile (src dst : Route) : Run (Except Fault Unit) := do
  let v ← look
  match copiedBytes v src dst with
  | none => pure (.error .other)
  | some bytes => write dst bytes

def scandir (r : Route) : Run (Except Fault (List String × List String)) := do
  let v ← look
  match v.locate true r with
  | none => pure (.error .other)
  | some p =>
    match ← scan p with
    | .error e => pure (.error e)
    | .ok names => pure (.ok (names.partition fun name => v.isdir (r.join [name])))

/-- `os.walk`, top down and without following links, through so many levels. The body gets the names below the top,
the directories and the other entries; it returns what it found and the directories to go on with, and an error of it
ends the walk. A directory that cannot be read is left out. -/
def walk {α : Type} (top : Route)
    (body : List String → List String → List String → Run (Except Fault (List α × List String))) :
    ℕ → List String → Run (Except Fault (List α))
  | 0, _ => pure (.ok [])
  | depth+1, sub => do
    match ← scandir (top.join sub) with
    | .error _ => pure (.ok [])
    | .ok (dirs, files) =>
      (body sub dirs files).andThen fun (found, kept) => do
        let v ← look
        Prog.foldOk
          (fun found name => (walk top body depth (sub ++ [name])).andThen fun more => pure (.ok (found ++ more)))
          (kept.filter fun name => !v.islink (top.join (sub ++ [name]))) found

def tolerate (ignore : Bool) (p : Run (Except Fault Unit)) : Run (Except Fault Unit) := do
  match ← p with
  | .ok () => pure (.ok ())
  | .error e => pure (if ignore then .ok () else .error e)

def rmtreeEntries (ignore : Bool) : ℕ → Path → Run (Except Fault Unit)
  | 0, _ => pure (.error .other)
  | depth+1, p => do
    match ← scan p with
    | .error e => pure (if ignore then .ok () else .error e)
    | .ok names =>
      Prog.foldOk (fun _ name => do
        let v ← look
        if v.node (p ++ [name]) = some .dir then
          (rmtreeEntries ignore depth (p ++ [name])).andThen fun _ =>
            tolerate ignore (rmdirAt (p ++ [name]))
        else tolerate ignore (removeAt (p ++ [name]))) names ()

def rmtree (ignore : Bool) (depth : ℕ) (r : Route) : Run (Except Fault Unit) := do
  let v ← look
  match v.locate false r with
  | none => pure (if ignore then .ok () else .error .other)
  | some p =>
    if v.node p = some .dir then (rmtreeEntries ignore depth p).andThen fun _ => tolerate ignore (rmdir r)
    else pure (if ignore then .ok () else .error .other)

end Os

end LinkTree
