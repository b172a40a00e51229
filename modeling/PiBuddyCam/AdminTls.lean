import PiBuddyCam.AdminTlsNames
import PiBuddyCam.CrashProg
import PiBuddyCam.OrderedDict

/-! `ensure` of `app/admin_tls.py` over the directory of the key pair and the file `admin.env`. `openssl` makes a
matching pair with the names it is given, unless the common name is longer than a certificate allows; a pair of two
generations does not load. -/
namespace PiBuddyCam.AdminTls

/-- What a file holds: the key or the certificate of a generation, or something else. -/
inductive Content where
  | key (generation : ℕ)
  | cert (generation : ℕ) (names : List String)
  | other
  deriving DecidableEq

/-- An entry of the directory; where a symlink leads to is not modelled. -/
inductive Node where
  | file (content : Content)
  | link
  | dir (files : List (String × Content))
  deriving DecidableEq

/-- The directory, `admin.env`, and the names that each generation was given. -/
structure World where
  entries : OrderedDict String Node := .empty
  env : Option String := none
  generations : List (List String) := []

namespace World

def node (w : World) (name : String) : Option Node := w.entries.get? name

def put (w : World) (name : String) (n : Node) : World := { w with entries := w.entries.set name n }

def del (w : World) (name : String) : World := { w with entries := w.entries.pop name }

theorem node_put_self (w : World) (name : String) (n : Node) : (w.put name n).node name = some n :=
  OrderedDict.get?_set_self _ _ _

theorem node_put_of_ne (w : World) {name other : String} (n : Node) (h : other ≠ name) :
    (w.put name n).node other = w.node other := OrderedDict.get?_set_of_ne _ _ h

theorem node_del_of_ne (w : World) {name other : String} (h : other ≠ name) :
    (w.del name).node other = w.node other := OrderedDict.get?_pop_of_ne _ h

end World

abbrev Done := Except String Unit

abbrev Outcome := Except String (ℤ × String)

inductive Op where
  | which
  | makedirs
  | chmodDir
  | chown (path : String)
  | listdir
  | islink (name : String)
  | isdir (name : String)
  | isfile (name : String)
  | rmtree (name : String)
  | loadCertChain (cert key : String)
  | printSan (cert : String)
  | checkEnd (cert : String)
  | mkdtemp (stem : String)
  | request (staging subject : String) (san : List String)
  | isfileIn (dir file : String)
  | chmodIn (dir file : String)
  | replace (dir file dst : String)
  | chmod (name : String)
  | writeEnv (text : String)

abbrev Res : Op → Type
  | .which => Option String
  | .listdir => Except String (List String)
  | .chown _ | .rmtree _ => Unit
  | .islink _ | .isdir _ | .isfile _ | .loadCertChain _ _ | .isfileIn _ _ => Bool
  | .printSan _ | .checkEnd _ | .request _ _ _ => Outcome
  | .mkdtemp _ => Except String String
  | .makedirs | .chmodDir | .chmodIn _ _ | .replace _ _ _ | .chmod _ | .writeEnv _ => Done

/-- How the outside settles a call: `follows` is what a test through a symlink comes to, `leaves` whether a call that
fails leaves something behind. -/
structure Choice where
  fails : Bool := false
  error : String := ""
  openssl : Option String := some "/usr/bin/openssl"
  follows : Bool := false
  code : ℤ := 0
  text : String := ""
  suffix : String := ""
  leaves : Bool := false

def Choice.failureCode (c : Choice) : ℤ := if c.code = 0 then 1 else c.code

def keyFile : String := "admin.key"

def certFile : String := "admin.crt"

def dnsOf (entry : String) : Option String :=
  if PyText.startswith entry "DNS:" then some (String.ofList (entry.toList.drop 4)) else none

def maxCommonName : ℕ := 64

namespace World

def done (c : Choice) (allowed : Bool) : Done := if c.fails || !allowed then .error c.error else .ok ()

def rmtree (w : World) (name : String) (c : Choice) : World :=
  match w.node name with
  | some (.dir _) => if c.fails then (if c.leaves then w else w.put name (.dir [])) else w.del name
  | _ => w

def matching (w : World) (cert key : String) : Bool :=
  match w.node cert, w.node key with
  | some (.file (.cert g _)), some (.file (.key g')) => g = g'
  | _, _ => false

def printSan (w : World) (cert : String) (c : Choice) : Outcome :=
  if c.fails then .error c.error
  else if c.code ≠ 0 then .ok (c.code, c.text)
  else
    match w.node cert with
    | some (.file (.cert _ names)) => .ok (0, String.ofList (sanText names))
    | _ => .ok (c.failureCode, c.text)

/-- A name that is free: the proposed one, or else one that is longer than all entries together. -/
def freeName (w : World) (name : String) : String :=
  let length := (w.entries.keys.map String.toList).flatten.length
  if (w.node name).isSome then name ++ String.ofList (List.replicate (length+1) '_') else name

def mkdtemp (w : World) (stem : String) (c : Choice) : Except String String × World :=
  if c.fails then (.error c.error, w)
  else (.ok (w.freeName (stem ++ c.suffix)), w.put (w.freeName (stem ++ c.suffix)) (.dir []))

def generate (w : World) (staging : String) (names : List String) : World :=
  { w with
    entries := w.entries.set staging
      (.dir [(keyFile, .key w.generations.length), (certFile, .cert w.generations.length names)])
    generations := w.generations ++ [names] }

def request (w : World) (staging subject : String) (san : List String) (c : Choice) : Outcome × World :=
  if c.fails then (.error c.error, w)
  else
    match w.node staging with
    | some (.dir files) =>
      if c.code = 0 ∧ subject.toList.length ≤ maxCommonName then
        (.ok (0, c.text), w.generate staging (san.filterMap dnsOf))
      else
        (.ok (c.failureCode, c.text),
          if c.leaves then w.put staging (.dir (files ++ [(keyFile, .other)])) else w)
    | _ => (.ok (c.failureCode, c.text), w)

def fileIn (w : World) (dir file : String) : Option Content :=
  match w.node dir with
  | some (.dir files) => files.lookup file
  | _ => none

def isRealDir (w : World) (name : String) : Bool :=
  match w.node name with
  | some (.dir _) => true
  | _ => false

def replace (w : World) (dir file dst : String) (c : Choice) : Done × World :=
  match w.node dir, w.fileIn dir file with
  | some (.dir files), some content =>
    if c.fails || w.isRealDir dst then (.error c.error, w)
    else (.ok (), (w.put dir (.dir (files.filter fun e => e.1 ≠ file))).put dst (.file content))
  | _, _ => (.error c.error, w)

def step (w : World) : (o : Op) → Choice → Res o × World
  | .which, c => (c.openssl, w)
  | .makedirs, c => (done c true, w)
  | .chmodDir, c => (done c true, w)
  | .chown _, _ => ((), w)
  | .listdir, c => (if c.fails then .error c.error else .ok w.entries.keys, w)
  | .islink name, _ => (w.node name = some .link, w)
  | .isdir name, c =>
    (match w.node name with
      | some (.dir _) => true
      | some .link => c.follows
      | _ => false, w)
  | .isfile name, c =>
    (match w.node name with
      | some (.file _) => true
      | some .link => c.follows
      | _ => false, w)
  | .rmtree name, c => ((), w.rmtree name c)
  | .loadCertChain cert key, c => (!c.fails && w.matching cert key, w)
  | .printSan cert, c => (w.printSan cert c, w)
  | .checkEnd _, c => (if c.fails then .error c.error else .ok (c.code, c.text), w)
  | .mkdtemp stem, c => w.mkdtemp stem c
  | .request staging subject san, c => w.request staging subject san c
  | .isfileIn dir file, _ => ((w.fileIn dir file).isSome, w)
  | .chmodIn dir file, c => (done c (w.fileIn dir file).isSome, w)
  | .replace dir file dst, c => w.replace dir file dst c
  | .chmod name, c => (done c (w.node name).isSome, w)
  | .writeEnv text, c =>
    if c.fails then (.error c.error, if c.leaves then { w with env := some text } else w)
    else (.ok (), { w with env := some text })

end World

def machine : Machine Op Res World Choice := ⟨World.step⟩

abbrev Run := Prog Op Res

def sys (o : Op) : Run (Res o) := Prog.op o

/-- How `ensure` ends without returning: a `TlsError`, or an `OSError` that no handler takes. -/
inductive Failure where
  | tls (message : String)
  | os (error : String)
  deriving DecidableEq

def makedirs : Run Done := sys .makedirs
def chmodDir : Run Done := sys .chmodDir
def chown (path : String) : Run Unit := sys (.chown path)
def listdir : Run (Except String (List String)) := sys .listdir
def islink (name : String) : Run Bool := sys (.islink name)
def isdir (name : String) : Run Bool := sys (.isdir name)
def isfile (name : String) : Run Bool := sys (.isfile name)
def rmtree (name : String) : Run Unit := sys (.rmtree name)
def loadCertChain (cert key : String) : Run Bool := sys (.loadCertChain cert key)
def mkdtemp (stem : String) : Run (Except String String) := sys (.mkdtemp stem)
def isfileIn (dir file : String) : Run Bool := sys (.isfileIn dir file)
def chmodIn (dir file : String) : Run Done := sys (.chmodIn dir file)
def replace (dir file dst : String) : Run Done := sys (.replace dir file dst)
def chmod (name : String) : Run Done := sys (.chmod name)
def writeEnv (text : String) : Run Done := sys (.writeEnv text)
def request (staging subject : String) (san : List String) : Run Outcome := sys (.request staging subject san)
def printSan (cert : String) : Run Outcome := sys (.printSan cert)
def checkEnd (cert : String) : Run Outcome := sys (.checkEnd cert)

def raising (f : String → Failure) (p : Run Done) : Run (Except Failure Unit) := do
  let r ← p
  pure (r.mapError f)

def certCoversHost (cert host : String) : Run Bool := do
  match ← printSan cert with
  | .error _ => pure false
  | .ok (code, stdout) => pure (code = 0 && (findDns 0 stdout.toList).contains host)

def notExpiring (cert : String) : Run Bool := do
  match ← checkEnd cert with
  | .error _ => pure false
  | .ok (code, _) => pure (code = 0)

def keypairReusable (candidates : List String) : Run Bool := do
  let certLink ← islink certFile
  if certLink then return false
  let keyLink ← islink keyFile
  if keyLink then return false
  let certThere ← isfile certFile
  if !certThere then return false
  let keyThere ← isfile keyFile
  if !keyThere then return false
  let loaded ← loadCertChain certFile keyFile
  if !loaded then return false
  let covered ← certCoversHost certFile (commonName candidates)
  if !covered then return false
  notExpiring certFile

def generateIn (staging : String) (candidates : List String) : Run (Except Failure Unit) := do
  match ← request staging (commonName candidates) (sanEntries candidates) with
  | .error e => pure (.error (.tls ("openssl could not be executed: " ++ e)))
  | .ok (code, stderr) =>
    if code ≠ 0 then
      return .error (.tls ("openssl keypair generation failed: " ++ PyText.strip stderr))
    let keyThere ← isfileIn staging keyFile
    if !keyThere then return .error (.tls "openssl reported success but wrote no keypair")
    let certThere ← isfileIn staging certFile
    if !certThere then return .error (.tls "openssl reported success but wrote no keypair")
    (raising .os (chmodIn staging keyFile)).andThen fun _ =>
      (raising .os (chmodIn staging certFile)).andThen fun _ =>
        (raising .os (replace staging keyFile keyFile)).andThen fun _ =>
          raising .os (replace staging certFile certFile)

def stagingStem : String := ".admin-tls-"

def generateKeypair (candidates : List String) : Run (Except Failure Unit) :=
  (raising .os makedirs).andThen fun _ =>
    (raising .os chmodDir).andThen fun _ => do
      match ← mkdtemp stagingStem with
      | .error e => pure (.error (.os e))
      | .ok staging =>
        let result ← generateIn staging candidates
        rmtree staging
        pure result

def removeStale (name : String) : Run Unit := do
  if !PyText.startswith name stagingStem then return ()
  let directory ← isdir name
  if !directory then return ()
  let symlink ← islink name
  if symlink then return ()
  rmtree name

def cleanupStaleStaging : Run Unit := do
  match ← listdir with
  | .error _ => pure ()
  | .ok names => names.forM removeStale

def tlsDir : String := "/data/pibuddycam/config/admin-tls"

def adminEnvPath : String := "/etc/pibuddycam/admin.env"

def envText : String :=
  "ADMIN_TLS_CERT=" ++ tlsDir ++ "/" ++ certFile ++ "\nADMIN_TLS_KEY=" ++ tlsDir ++ "/" ++ keyFile ++ "\n"

def writeAdminEnv : Run (Except Failure Unit) :=
  raising (fun e => .tls ("could not write " ++ adminEnvPath ++ ": " ++ e)) (writeEnv envText)

/-- The arguments of `ensure`, with what `hostname_candidates` reads. -/
structure Args where
  configured : String := ""
  derived : String := ""
  hostnames : Option (List String) := none
  openssl : Option String := none

def Args.raws (a : Args) : List String := a.hostnames.getD [a.configured, a.derived]

def Args.candidates (a : Args) : List String := distinctLabels a.raws

def Args.host (a : Args) : String := commonName a.candidates

def findOpenssl : Option String → Run (Option String)
  | some path => pure (some path)
  | none => sys .which

def publish : Run (Except Failure Bool) :=
  let modes (e : String) : Failure := .tls ("could not set keypair modes: " ++ e)
  (raising modes (chmod keyFile)).andThen fun _ =>
    (raising modes (chmod certFile)).andThen fun _ => do
      chown keyFile
      chown certFile
      writeAdminEnv.andThen fun _ => do
        chown adminEnvPath
        pure (.ok true)

def provideKeypair (candidates : List String) : Run (Except Failure Unit) := do
  let reusable ← keypairReusable candidates
  if reusable then pure (.ok ()) else generateKeypair candidates

def ensure (a : Args) : Run (Except Failure Bool) := do
  let openssl ← findOpenssl a.openssl
  if openssl.getD "" = "" then
    return .error (.tls "openssl is not installed; cannot provision admin TLS")
  (raising .os makedirs).andThen fun _ =>
    (raising .os chmodDir).andThen fun _ => do
      chown tlsDir
      cleanupStaleStaging
      (provideKeypair a.candidates).andThen fun _ => publish

end PiBuddyCam.AdminTls
