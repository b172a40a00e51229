import Mathlib.Data.Rat.Defs
import PiBuddyCam.SemVer

/-! The signed manifest of `app/updater.py`: parsing and classification, and the
texts that `app/updater_install.py` may return about it. -/
namespace PiBuddyCam.Updater

inductive Json where
  | null
  | bool (b : Bool)
  | int (n : ℤ)
  | float (x : ℚ)
  | str (s : String)
  | arr (items : List Json)
  | obj (fields : List (String × Json))

/-- What the sources take from the standard library: `json.loads`, `none` for its
`ValueError`, and scheme and netloc of `urlsplit`, `none` for its `ValueError`. -/
structure Host where
  loads : String → Option Json
  urlsplit : String → Option (String × String)

structure Manifest where
  schemaVersion : ℤ
  version : String
  channel : String
  sourceCommit : String
  minImageVersion : String
  bundleUrl : String
  bundleSha256 : String
  bundleSize : ℤ
  releaseSummary : String
  releaseUrl : String
  rebootRequired : Bool
  deriving DecidableEq

def maxBundleSize : ℤ := 256*1024*1024
def maxManifestBytes : ℕ := 64*1024
def maxCommitLength : ℕ := 128
def maxSummaryLength : ℕ := 2000
def maxUrlLength : ℕ := 2048
def maxReasonLength : ℕ := 200

def isHexDigit (c : Char) : Bool := isDigit c || ('a' ≤ c && c ≤ 'f') || ('A' ≤ c && c ≤ 'F')

def isSha256 (value : String) : Bool :=
  let cs := PyText.beforeDollar value.toList
  cs.length == 64 && cs.all isHexDigit

def validBundleSize (value : ℤ) : Bool := 0 < value && value ≤ maxBundleSize

/-- The payload that `parse_manifest` is given. -/
inductive Payload where
  | document (fields : List (String × Json))
  | text (s : String)
  | bytes (b : List UInt8)

/-- `_decode_manifest`; an error is the text of the `ManifestError`. -/
def decodeManifest (h : Host) : Payload → Except String (List (String × Json))
  | .document fields => pure fields
  | .text s =>
    if maxManifestBytes < s.toList.length then throw "manifest is too large" else decodeText s
  | .bytes b =>
    if maxManifestBytes < b.length then throw "manifest is too large"
    else match String.fromUTF8? ⟨b.toArray⟩ with
      | none => throw "manifest is not valid UTF-8"
      | some s => decodeText s
where
  decodeText (s : String) : Except String (List (String × Json)) :=
    match h.loads s with
    | none => throw "manifest is not valid JSON"
    | some (.obj fields) => pure fields
    | some _ => throw "manifest must be a JSON object"

def require (doc : List (String × Json)) (key : String) : Except String Json :=
  match doc.lookup key with
  | none => throw ("manifest field " ++ key ++ " is missing")
  | some value => pure value

def requireText (value : Json) (key : String) (maxLength : ℕ) : Except String String :=
  match value with
  | .str s =>
    if s = "" || maxLength < s.toList.length || s.toList.any PyText.isControl
    then throw ("manifest field " ++ key ++ " is invalid") else pure s
  | _ => throw ("manifest field " ++ key ++ " is invalid")

def requireSemver (value : Json) (key : String) : Except String String := do
  let s ← requireText value key maxVersionLength
  if isSemver s then pure s else throw ("manifest field " ++ key ++ " is not valid SemVer")

def requireHttpsUrl (h : Host) (value : Json) (key : String) : Except String String := do
  let s ← requireText value key maxUrlLength
  match h.urlsplit s with
  | none => throw ("manifest field " ++ key ++ " is invalid")
  | some (scheme, netloc) =>
    if scheme ≠ "https" || netloc = "" then throw ("manifest field " ++ key ++ " must be https") else pure s

def supportedSchema : Option Json → Except String ℤ
  | some (.int n) => if n = 1 then pure n else throw "manifest schema_version is not supported"
  | _ => throw "manifest schema_version is missing or invalid"

def supportedChannel : Json → Except String String
  | .str s => if s = "stable" ∨ s = "alpha" then pure s else throw "manifest channel is not supported"
  | _ => throw "manifest channel is not supported"

def requireSha256 : Json → Except String String
  | .str s =>
    if isSha256 s then pure (String.ofList (s.toList.map Char.toLower))
    else throw "manifest bundle_sha256 is malformed"
  | _ => throw "manifest bundle_sha256 is malformed"

def requireBundleSize : Json → Except String ℤ
  | .int n =>
    if n ≤ 0 then throw "manifest bundle_size is invalid"
    else if maxBundleSize < n then throw "manifest bundle_size exceeds the limit"
    else pure n
  | _ => throw "manifest bundle_size is invalid"

def requireSummary : Json → Except String String
  | .str s =>
    if PyText.strip s = "" then throw "manifest release_summary is missing"
    else if maxSummaryLength < s.toList.length then throw "manifest release_summary is too long"
    else pure s
  | _ => throw "manifest release_summary is missing"

def requireFlag : Json → Except String Bool
  | .bool b => pure b
  | _ => throw "manifest reboot_required is not a boolean"

def parseManifest (h : Host) (payload : Payload) : Except String Manifest := do
  let doc ← decodeManifest h payload
  let schemaVersion ← supportedSchema (doc.lookup "schema_version")
  let version ← requireSemver (← require doc "version") "version"
  let minImageVersion ← requireSemver (← require doc "min_image_version") "min_image_version"
  let channel ← supportedChannel (← require doc "channel")
  let sourceCommit ← requireText (← require doc "source_commit") "source_commit" maxCommitLength
  let bundleUrl ← requireHttpsUrl h (← require doc "bundle_url") "bundle_url"
  let releaseUrl ← requireHttpsUrl h (← require doc "release_url") "release_url"
  let bundleSha256 ← requireSha256 (← require doc "bundle_sha256")
  let bundleSize ← requireBundleSize (← require doc "bundle_size")
  let releaseSummary ← requireSummary (← require doc "release_summary")
  let rebootRequired ← requireFlag (← require doc "reboot_required")
  pure { schemaVersion, version, channel, sourceCommit, minImageVersion, bundleUrl, bundleSha256, bundleSize,
         releaseSummary, releaseUrl, rebootRequired }

inductive ManifestOutcome where
  | available | upToDate | downgrade | incompatibleImage | invalid
  deriving DecidableEq

def classifyManifest (manifest : Manifest) (currentVersion currentImageVersion : String) :
    ManifestOutcome × String :=
  match parseSemver manifest.version, parseSemver manifest.minImageVersion with
  | some candidate, some minImage =>
    if currentImageVersion ≠ "" ∧ parseSemver currentImageVersion = none then
      (.invalid, "installed image version is invalid")
    else if currentImageVersion ≠ "" ∧ (parseSemver currentImageVersion).any (semverLt · minImage) then
      (.incompatibleImage, "manifest requires a newer image version")
    else if currentVersion = "" then (.available, "")
    else match parseSemver currentVersion with
      | none => (.invalid, "installed version is invalid")
      | some current =>
        if semverLt candidate current then (.downgrade, "manifest version is a downgrade")
        else if candidate = current then
          (.upToDate, "manifest version is not newer than the installed version")
        else (.available, "")
  | _, _ => (.invalid, "manifest version is invalid")

/-- The comparison of `parse_manifest` with the installed version, which is left out when that is
empty. -/
def requireNewer (version currentVersion : String) : Except String Unit :=
  if currentVersion = "" then pure ()
  else match parseSemver currentVersion with
    | none => throw "installed version is invalid"
    | some current =>
      match parseSemver version with
      | none => throw "version must be strict X.Y.Z"
      | some candidate =>
        if semverLt candidate current then throw "manifest version is a downgrade"
        else if candidate = current then throw "manifest version is not newer than the installed version"
        else pure ()

def requireImage (minImageVersion currentImageVersion : String) : Except String Unit :=
  if currentImageVersion = "" then pure ()
  else match parseSemver currentImageVersion with
    | none => throw "installed image version is invalid"
    | some image =>
      match parseSemver minImageVersion with
      | none => throw "version must be strict X.Y.Z"
      | some minImage => if semverLt image minImage then throw "manifest requires a newer image version" else pure ()

def parseManifestFor (h : Host) (payload : Payload) (currentVersion currentImageVersion : String) :
    Except String Manifest := do
  let manifest ← parseManifest h payload
  requireNewer manifest.version currentVersion
  requireImage manifest.minImageVersion currentImageVersion
  pure manifest

section Versions

theorem requireText_ok {value : Json} {key s : String} {maxLength : ℕ} (h : requireText value key maxLength = .ok s) :
    s ≠ "" ∧ s.toList.length ≤ maxLength ∧ s.toList.any PyText.isControl = false := by
  unfold requireText at h
  split at h
  · split_ifs at h with hbad
    obtain rfl := Except.ok.inj h
    simp only [Bool.or_eq_true, decide_eq_true_eq, not_or, not_lt, Bool.not_eq_true] at hbad
    exact ⟨hbad.1.1, hbad.1.2, hbad.2⟩
  · cases h

theorem requireSemver_ok {value : Json} {key s : String} (h : requireSemver value key = .ok s) :
    isSemver s = true ∧ s.toList.length ≤ maxVersionLength ∧ s.toList.any PyText.isControl = false := by
  obtain ⟨s', htext, h⟩ := Except.exists_of_bind_eq_ok h
  split_ifs at h with hsemver
  obtain rfl : s' = s := Except.ok.inj h
  obtain ⟨-, hlength, hcontrol⟩ := requireText_ok htext
  exact ⟨hsemver, hlength, hcontrol⟩

theorem parseManifest_versions {h : Host} {payload : Payload} {manifest : Manifest}
    (hparse : parseManifest h payload = .ok manifest) :
    (isSemver manifest.version = true ∧ manifest.version.toList.length ≤ maxVersionLength ∧
      manifest.version.toList.any PyText.isControl = false) ∧ isSemver manifest.minImageVersion = true := by
  unfold parseManifest at hparse
  obtain ⟨doc, -, hparse⟩ := Except.exists_of_bind_eq_ok hparse
  obtain ⟨schemaVersion, -, hparse⟩ := Except.exists_of_bind_eq_ok hparse
  obtain ⟨value, -, hparse⟩ := Except.exists_of_bind_eq_ok hparse
  obtain ⟨version, hversion, hparse⟩ := Except.exists_of_bind_eq_ok hparse
  obtain ⟨value, -, hparse⟩ := Except.exists_of_bind_eq_ok hparse
  obtain ⟨minImageVersion, himage, hparse⟩ := Except.exists_of_bind_eq_ok hparse
  -- the other fields are not looked at
  have hrest : manifest.version = version ∧ manifest.minImageVersion = minImageVersion := by
    iterate 16 obtain ⟨_, -, hparse⟩ := Except.exists_of_bind_eq_ok hparse
    obtain rfl := Except.ok.inj hparse
    exact ⟨rfl, rfl⟩
  rw [hrest.1, hrest.2]
  exact ⟨requireSemver_ok hversion, (requireSemver_ok himage).1⟩

theorem classify_available_iff {manifest : Manifest} (hversion : isSemver manifest.version = true)
    (himage : isSemver manifest.minImageVersion = true) (currentVersion currentImageVersion : String) :
    (classifyManifest manifest currentVersion currentImageVersion).1 = .available ↔
      requireNewer manifest.version currentVersion = .ok () ∧
        requireImage manifest.minImageVersion currentImageVersion = .ok () := by
  obtain ⟨candidate, hcandidate⟩ := Option.isSome_iff_exists.mp hversion
  obtain ⟨minImage, hminImage⟩ := Option.isSome_iff_exists.mp himage
  -- past the image, both look at the installed version in the same way
  have hnewer : (if currentVersion = "" then (ManifestOutcome.available, "")
      else match parseSemver currentVersion with
        | none => (.invalid, "installed version is invalid")
        | some current =>
          if semverLt candidate current then (.downgrade, "manifest version is a downgrade")
          else if candidate = current then (.upToDate, "manifest version is not newer than the installed version")
          else (.available, "")).1 = .available ↔ requireNewer manifest.version currentVersion = .ok () := by
    rw [requireNewer, hcandidate]
    split_ifs with hempty
    · exact ⟨fun _ => rfl, fun _ => rfl⟩
    cases parseSemver currentVersion with
    | none => simp [throw, throwThe, MonadExceptOf.throw]
    | some current =>
      dsimp only
      split_ifs
      · simp
      · simp
      · simp [pure, Except.pure]
  rw [classifyManifest, hcandidate, hminImage]
  rw [requireImage, hminImage]
  by_cases hempty : currentImageVersion = ""
  · simp only [hempty, ne_eq, not_true_eq_false, false_and, if_false, if_true]
    exact hnewer.trans (and_iff_left rfl).symm
  cases hparse : parseSemver currentImageVersion with
  | none => simp [hempty, throw, throwThe, MonadExceptOf.throw]
  | some image =>
    cases hlt : semverLt image minImage with
    | true => simp [hempty, hlt, throw, throwThe, MonadExceptOf.throw]
    | false =>
      simp only [hempty, hlt, ne_eq, not_false_eq_true, true_and, reduceCtorEq, Option.any_some, Bool.false_eq_true,
        if_false]
      exact hnewer.trans (and_iff_left rfl).symm

/-- Parsing against installed versions is parsing and then asking the classifier. -/
theorem parse_for_versions_iff_available (h : Host) (payload : Payload) (currentVersion currentImageVersion : String)
    (manifest : Manifest) :
    parseManifestFor h payload currentVersion currentImageVersion = .ok manifest ↔
      parseManifest h payload = .ok manifest ∧
        (classifyManifest manifest currentVersion currentImageVersion).1 = .available := by
  constructor
  · intro hfor
    obtain ⟨parsed, hparse, hfor⟩ := Except.exists_of_bind_eq_ok hfor
    obtain ⟨_, hnewer, hfor⟩ := Except.exists_of_bind_eq_ok hfor
    obtain ⟨_, himage, hfor⟩ := Except.exists_of_bind_eq_ok hfor
    obtain rfl : parsed = manifest := Except.ok.inj hfor
    obtain ⟨⟨hversion, -⟩, hmin⟩ := parseManifest_versions hparse
    exact ⟨hparse, (classify_available_iff hversion hmin _ _).mpr ⟨hnewer, himage⟩⟩
  · rintro ⟨hparse, havailable⟩
    obtain ⟨⟨hversion, -⟩, hmin⟩ := parseManifest_versions hparse
    obtain ⟨hnewer, himage⟩ := (classify_available_iff hversion hmin _ _).mp havailable
    exact Except.bind_eq_ok hparse (Except.bind_eq_ok hnewer (Except.bind_eq_ok himage rfl))

end Versions

/-- A value that an injected callable returns, as far as the updater looks at it: a
`str`, or anything else by its truth. -/
inductive Val where
  | str (s : String)
  | other (truth : Bool)
  deriving DecidableEq

def Val.truthy : Val → Bool
  | .str s => s ≠ ""
  | .other b => b

def Val.orText (value : Val) (text : String) : Val := if value.truthy then value else .str text

def boundedText (value : String) (limit : ℕ) : String :=
  PyText.take limit (PyText.strip (String.ofList (PyText.squashControl false value.toList)))

theorem squashControl_eq_self {cs : List Char} (h : cs.any PyText.isControl = false) :
    PyText.squashControl false cs = cs := by
  induction cs with
  | nil => rfl
  | cons c cs ih =>
    rw [List.any_cons, Bool.or_eq_false_iff] at h
    rw [PyText.squashControl, h.1, if_neg Bool.false_ne_true, ih h.2]

theorem boundedText_version {h : Host} {payload : Payload} {manifest : Manifest}
    (hparse : parseManifest h payload = .ok manifest) :
    boundedText manifest.version maxVersionLength = manifest.version := by
  obtain ⟨⟨hsemver, hlength, hcontrol⟩, -⟩ := parseManifest_versions hparse
  have hnewline : '\n' ∉ manifest.version.toList := fun hmem =>
    Bool.false_ne_true (hcontrol.symm.trans (List.any_eq_true.mpr ⟨'\n', hmem, by decide⟩))
  have hspace : ∀ c ∈ manifest.version.toList, PyText.isSpace c = false := by
    rw [isSemver, parseSemver] at hsemver
    split_ifs at hsemver
    · exact absurd hsemver Bool.false_ne_true
    obtain ⟨v, hv⟩ := Option.isSome_iff_exists.mp hsemver
    have hwhole : PyText.beforeDollar manifest.version.toList = manifest.version.toList :=
      if_neg fun hlast => hnewline (List.mem_of_getLast? hlast)
    rw [hwhole] at hv
    intro c hc
    rcases mem_matchSemver hv c hc with hdigit | rfl
    · refine PyText.isSpace_of_isDigit ?_
      simpa [isDigit, Char.isDigit, Char.le_def] using hdigit
    · decide
  have hstrip := PyText.strip_eq_self (fun c hc => hspace c (List.mem_of_head? hc))
    fun c hc => hspace c (List.mem_of_getLast? hc)
  rw [boundedText, squashControl_eq_self hcontrol, String.ofList_toList, hstrip, PyText.take,
    List.take_of_length_le hlength, String.ofList_toList]

def sanitize : Val → String
  | .str s => boundedText s maxReasonLength
  | .other _ => ""

def redact (reason : Val) (secrets : List String) : String :=
  PyText.take maxReasonLength ((secrets.filter (· ≠ "")).foldl
    (fun text secret => PyText.replace text secret "<redacted>") (sanitize reason))

def requiredFreeSpace (bundleSize : ℤ) : ℤ := bundleSize*4 + 256*1024*1024 + 64*1024*1024

end PiBuddyCam.Updater
