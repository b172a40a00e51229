import PiBuddyCam.NetworkModel
import PiBuddyCam.Provisioning

/-! `wifi_station.py`: the station profile is created or changed and activated. The key goes
into a credential file that is named on the command line. -/
namespace PiBuddyCam.Network

/-- The `ssid` argument, `none` when it is no string, and the `psk` argument. -/
inductive Psk where
  | null
  | notString
  | key (k : Key)

def runCommand (args : List String) : Run (Except String ℤ) := do
  match (← sys (.command args) : Outcome) with
  | .timedOut => pure (.error "network manager command timed out")
  | .unavailable => pure (.error "network manager tool unavailable")
  | .raised cls =>
    sys (.log ("wifi_station: runner failed: " ++ cls))
    pure (.error "network manager command failed")
  | .done code _ => pure (.ok (code.getD 1))

def ipv4Args : Ipv4 → Option (List String)
  | .unset => some ["ipv4.method", "auto"]
  | .auto =>
    some ["ipv4.method", "auto", "ipv4.addresses", "", "ipv4.gateway", "", "ipv4.dns", "", "ipv4.ignore-auto-dns", "no"]
  | .manual address prefixLength gateway dns => do
    let a ← address
    let p ← prefixLength
    let g ← gateway
    some ["ipv4.method", "manual", "ipv4.addresses", a ++ "/" ++ p, "ipv4.gateway", g, "ipv4.dns",
      " ".intercalate dns, "ipv4.ignore-auto-dns", if dns = [] then "no" else "yes"]

def security (wpa : Bool) : List String := if wpa then ["wifi-sec.key-mgmt", "wpa-psk"] else []

def addCommand (ssid ifname : String) (wpa : Bool) (ipv4 : List String) : List String :=
  ["nmcli", "connection", "add", "type", "wifi", "ifname", ifname, "con-name", connectionName, "autoconnect", "yes",
    "ssid", ssid, "--"] ++ ipv4 ++ security wpa

def modifyCommand (ssid : String) (wpa : Bool) (ipv4 : List String) : List String :=
  ["nmcli", "connection", "modify", connectionName, "connection.autoconnect", "yes", "802-11-wireless.ssid", ssid] ++
    ipv4 ++ security wpa

def removeSecurityCommand : List String :=
  ["nmcli", "connection", "modify", connectionName, "remove", "802-11-wireless-security"]

def upCommand : List String := ["nmcli", "connection", "up", connectionName]

def upWithPasswdFileCommand (passwdFile : String) : List String := upCommand ++ ["passwd-file", passwdFile]

def firstWritable (fallback : String) : List String → Run String
  | [] => pure fallback
  | candidate :: rest => do
    if candidate = "" then firstWritable fallback rest
    else
      let writable : Bool ← sys (.writableDir candidate)
      if writable then pure candidate else firstWritable fallback rest

def passwdFileDir (preferred : Option String) : Run (Option String) := do
  match (← sys .tempDir : Option String) with
  | none => pure none
  | some tmp =>
    let dir ← firstWritable tmp [preferred.getD "", "/run", tmp]
    pure (some dir)

def removePasswdFile (path : String) : Run Unit := do
  let removed : Bool ← sys (.remove path)
  if removed then pure () else sys (.log "wifi_station: could not remove Wi-Fi credential file")

def passwdContent : Key → Option String
  | .text s => some ("802-11-wireless-security.psk:" ++ s ++ "\n")
  | .surrogates _ => none

def discardPasswdFile (path : String) : Run (Option (Except String String)) := do
  sys .close
  removePasswdFile path
  pure (some (.error "could not write Wi-Fi credential file"))

def writePasswdFile (key : Key) (directory : Option String) : Run (Option (Except String String)) := do
  match ← passwdFileDir directory with
  | none => pure none
  | some dir =>
    match (← sys (.mkstemp dir) : Option String) with
    | none => pure (some (.error "could not create Wi-Fi credential file"))
    | some path =>
      let changed : Bool ← sys (.fchmod path)
      if !changed then discardPasswdFile path
      else
        match (← sys (.writeCredential path (passwdContent key)) : Written) with
        | .ok => pure (some (.ok path))
        | .osError => discardPasswdFile path
        | .unencodable => pure none

section Apply

variable (printable : Char → Bool)

def bringUp (args : List String) : Run (Bool × String) := do
  match ← runCommand args with
  | .error failure => pure (false, failure)
  | .ok code =>
    if code ≠ 0 then
      pure (false, Provisioning.sanitizeReason printable
        ("nmcli station activation failed (exit " ++ toString code ++ ")"))
    else pure (true, "")

def activate (key : Key) (writePsk : Bool) (passwdDir : Option String) : Run (Option (Bool × String)) := do
  if writePsk then
    match ← writePasswdFile key passwdDir with
    | none => pure none
    | some (.error reason) => pure (some (false, reason))
    | some (.ok path) =>
      let result ← bringUp printable (upWithPasswdFileCommand path)
      removePasswdFile path
      pure (some result)
  else
    let result ← bringUp printable upCommand
    pure (some result)

def storeProfile (attempt other : List String) : Run (Option String) := do
  match ← runCommand attempt with
  | .error failure => pure (some failure)
  | .ok code =>
    if code = 0 then pure none
    else
      match ← runCommand other with
      | .error failure => pure (some failure)
      | .ok code =>
        if code = 0 then pure none
        else pure (some (Provisioning.sanitizeReason printable
          ("nmcli station profile failed (exit " ++ toString code ++ ")")))

def profileKnown : Option Bool → Run Bool
  | some known => pure known
  | none => do
    let shown ← runCommand ["nmcli", "connection", "show", connectionName]
    pure (shown.toOption == some 0)

def applyKnown (ssid : String) (key : Key) (ifname : String) (passwdDir : Option String) (ipv4 : Ipv4)
    (keepPsk known : Bool) : Run (Option (Bool × String)) := do
  let wpa := key.given || keepPsk
  let writePsk := key.given && !keepPsk
  match ipv4Args ipv4 with
  | none => pure none
  | some args =>
    let add := addCommand ssid ifname wpa args
    let modify := modifyCommand ssid wpa args
    match ← storeProfile printable (if known then modify else add) (if known then add else modify) with
    | some failure => pure (some (false, failure))
    | none =>
      if wpa then activate printable key writePsk passwdDir
      else
        let _ ← runCommand removeSecurityCommand
        activate printable key writePsk passwdDir

def applyChecked (ssid : String) (key : Key) (ifname : String) (passwdDir : Option String) (ipv4 : Ipv4)
    (keepPsk : Bool) (existing : Option Bool) : Run (Option (Bool × String)) := do
  let known ← profileKnown existing
  applyKnown printable ssid key ifname passwdDir ipv4 keepPsk known

def apply (ssid : Option String) (psk : Psk) (ifname : String) (passwdDir : Option String) (ipv4 : Ipv4)
    (keepPsk : Bool) (existing : Option Bool) : Run (Option (Bool × String)) :=
  match ssid, psk with
  | none, _ => pure (some (false, "wifi SSID is required"))
  | some name, psk =>
    if PyText.strip name = "" then pure (some (false, "wifi SSID is required"))
    else
      match psk with
      | .notString => pure (some (false, "wifi PSK must be a string"))
      | .null => applyChecked printable (PyText.strip name) (.text "") ifname passwdDir ipv4 keepPsk existing
      | .key key =>
        if key.given ∧ ¬(8 ≤ key.length ∧ key.length ≤ 63) then
          pure (some (false, "wifi PSK must be 8..63 characters"))
        else applyChecked printable (PyText.strip name) key ifname passwdDir ipv4 keepPsk existing

end Apply

/-- The calls of `apply`: it deletes no profile, and has nothing to do with the keyfile, the
result document or the hotspot. -/
def Op.OfStation : Op → Prop
  | .command args => args ≠ deleteCommand
  | .log _ | .tempDir | .writableDir _ | .mkstemp _ | .fchmod _ | .writeCredential _ _ | .close | .remove _ => True
  | _ => False

section Within

variable {P : Op → Prop} (hlog : ∀ text, P (.log text))
include hlog

theorem runCommand_within {args : List String} (h : P (.command args)) : (runCommand args).Within P := by
  refine ⟨h, fun (r : Outcome) => ?_⟩
  cases r with
  | raised cls => exact ⟨hlog _, fun _ => trivial⟩
  | _ => trivial

theorem bringUp_within (printable : Char → Bool) {args : List String} (h : P (.command args)) :
    (bringUp printable args).Within P := by
  apply (runCommand_within hlog h).bind
  intro r
  cases r with
  | error failure => trivial
  | ok code =>
    dsimp only
    split <;> trivial

theorem storeProfile_within (printable : Char → Bool) {attempt other : List String} (h : P (.command attempt))
    (h' : P (.command other)) : (storeProfile printable attempt other).Within P := by
  apply (runCommand_within hlog h).bind
  intro r
  cases r with
  | error failure => trivial
  | ok code =>
    dsimp only
    split
    · trivial
    · apply (runCommand_within hlog h').bind
      intro r
      cases r with
      | error failure => trivial
      | ok code =>
        dsimp only
        split <;> trivial

theorem profileKnown_within (h : P (.command ["nmcli", "connection", "show", connectionName]))
    (existing : Option Bool) : (profileKnown existing).Within P := by
  cases existing with
  | some known => trivial
  | none => exact (runCommand_within hlog h).bind fun _ => trivial

end Within

theorem passwdFileDir_within {P : Op → Prop} (htemp : P .tempDir) (hdir : ∀ dir, P (.writableDir dir))
    (preferred : Option String) : (passwdFileDir preferred).Within P := by
  have hfirst (fallback : String) (dirs : List String) : (firstWritable fallback dirs).Within P := by
    induction dirs with
    | nil => trivial
    | cons dir dirs ih =>
      rw [firstWritable]
      split
      · exact ih
      · refine ⟨hdir dir, fun (r : Bool) => ?_⟩
        cases r with
        | true => trivial
        | false => exact ih
  refine ⟨htemp, fun (r : Option String) => ?_⟩
  cases r with
  | none => trivial
  | some tmp => exact (hfirst tmp _).bind fun _ => trivial

section OfStation

theorem addCommand_ne (ssid ifname : String) (wpa : Bool) (ipv4 : List String) :
    addCommand ssid ifname wpa ipv4 ≠ deleteCommand := by simp [addCommand, deleteCommand]

theorem modifyCommand_ne (ssid : String) (wpa : Bool) (ipv4 : List String) :
    modifyCommand ssid wpa ipv4 ≠ deleteCommand := by simp [modifyCommand, deleteCommand]

theorem removePasswdFile_within (path : String) : (removePasswdFile path).Within Op.OfStation := by
  refine ⟨trivial, fun (r : Bool) => ?_⟩
  cases r with
  | true => trivial
  | false => exact ⟨trivial, fun _ => trivial⟩

theorem discardPasswdFile_within (path : String) : (discardPasswdFile path).Within Op.OfStation :=
  ⟨trivial, fun _ => (removePasswdFile_within path).bind fun _ => trivial⟩

theorem writePasswdFile_within (key : Key) (directory : Option String) :
    (writePasswdFile key directory).Within Op.OfStation := by
  apply (passwdFileDir_within (P := Op.OfStation) trivial (fun _ => trivial) directory).bind
  intro dir
  cases dir with
  | none => trivial
  | some dir =>
    refine ⟨trivial, fun (r : Option String) => ?_⟩
    cases r with
    | none => trivial
    | some path =>
      refine ⟨trivial, fun (r : Bool) => ?_⟩
      cases r with
      | false => exact discardPasswdFile_within path
      | true =>
        refine ⟨trivial, fun (r : Written) => ?_⟩
        cases r with
        | ok => trivial
        | osError => exact discardPasswdFile_within path
        | unencodable => trivial

variable (printable : Char → Bool)

theorem activate_within (key : Key) (writePsk : Bool) (passwdDir : Option String) :
    (activate printable key writePsk passwdDir).Within Op.OfStation := by
  have hlog (text : String) : Op.OfStation (.log text) := trivial
  unfold activate
  split
  · apply (writePasswdFile_within key passwdDir).bind
    rintro (- | ⟨reason⟩ | ⟨path⟩)
    · trivial
    · trivial
    · have hup : upWithPasswdFileCommand path ≠ deleteCommand := by
        simp [upWithPasswdFileCommand, upCommand, deleteCommand]
      apply (bringUp_within hlog printable hup).bind
      exact fun result => (removePasswdFile_within path).bind fun _ => trivial
  · have hup : upCommand ≠ deleteCommand := by simp [upCommand, deleteCommand]
    exact (bringUp_within hlog printable hup).bind fun _ => trivial

theorem applyChecked_within (ssid : String) (key : Key) (ifname : String) (passwdDir : Option String) (ipv4 : Ipv4)
    (keepPsk : Bool) (existing : Option Bool) :
    (applyChecked printable ssid key ifname passwdDir ipv4 keepPsk existing).Within Op.OfStation := by
  have hlog (text : String) : Op.OfStation (.log text) := trivial
  have hshow : ["nmcli", "connection", "show", connectionName] ≠ deleteCommand := by simp [deleteCommand]
  apply (profileKnown_within hlog hshow existing).bind
  intro known
  unfold applyKnown
  cases ipv4Args ipv4 with
  | none => trivial
  | some args =>
    have hstore : (storeProfile printable (if known then modifyCommand ssid (key.given || keepPsk) args
        else addCommand ssid ifname (key.given || keepPsk) args) (if known then
        addCommand ssid ifname (key.given || keepPsk) args
        else modifyCommand ssid (key.given || keepPsk) args)).Within Op.OfStation := by
      cases known with
      | true => exact storeProfile_within hlog printable (modifyCommand_ne ssid _ args) (addCommand_ne ssid ifname _ args)
      | false => exact storeProfile_within hlog printable (addCommand_ne ssid ifname _ args) (modifyCommand_ne ssid _ args)
    apply hstore.bind
    intro r
    cases r with
    | some failure => trivial
    | none =>
      dsimp only
      split
      · exact activate_within printable key _ passwdDir
      · have hremove : removeSecurityCommand ≠ deleteCommand := by simp [removeSecurityCommand, deleteCommand]
        exact (runCommand_within hlog hremove).bind fun _ => activate_within printable key _ passwdDir

theorem apply_within (ssid : Option String) (psk : Psk) (ifname : String) (passwdDir : Option String) (ipv4 : Ipv4)
    (keepPsk : Bool) (existing : Option Bool) :
    (apply printable ssid psk ifname passwdDir ipv4 keepPsk existing).Within Op.OfStation := by
  unfold apply
  cases ssid with
  | none => trivial
  | some name =>
    dsimp only
    split
    · trivial
    · cases psk with
      | notString => trivial
      | null => exact applyChecked_within printable _ _ ifname passwdDir ipv4 keepPsk existing
      | key key =>
        dsimp only
        split
        · trivial
        · exact applyChecked_within printable _ _ ifname passwdDir ipv4 keepPsk existing

end OfStation

end PiBuddyCam.Network
