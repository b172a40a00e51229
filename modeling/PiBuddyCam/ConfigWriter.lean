import PiBuddyCam.ConfigSchema

/-! The writers of `config_schema.py`, and how the reader takes each piece of their text. -/
namespace PiBuddyCam.Config

open TomlText

/-- One character in `_toml_str`. A code below 0x80 has `00` in front in `'\\u%04x'`. -/
def escapeChar (c : Char) : List Char :=
  if c = '"' then ['\\', '"']
  else if c = '\\' then ['\\', '\\']
  else if c = '\n' then ['\\', 'n']
  else if c = '\r' then ['\\', 'r']
  else if c = '\t' then ['\\', 't']
  else if c.toNat < 0x20 ∨ c.toNat = 0x7f then
    ['\\', 'u', '0', '0', Nat.digitChar (c.toNat/16), Nat.digitChar (c.toNat%16)]
  else [c]

def quoted (s : String) : String := String.ofList ('"' :: (s.toList.flatMap escapeChar ++ ['"']))

def tomlStr : Value → Checked String
  | .str s => pure (quoted s)
  | _ => invalid "configuration value must be a string"

def tomlBool : Value → Checked String
  | .bool b => pure (if b then "true" else "false")
  | _ => invalid "configuration boolean must be a boolean"

def tomlInt : Value → Checked String
  | .int n => pure (toString n)
  | _ => invalid "schema_version must be an integer"

def tomlKey (key : String) : String := if key ≠ "" ∧ key.toList.all isBare then key else quoted key

def pairLine (key text : String) : String := key ++ " = " ++ text

def mergedScalar (cfg : Document) (key : String) (default : Value) : Value :=
  match cfg.get? key with
  | none => default
  | some (.value v) => v
  | some (.table _) => .table

def mergedEntry (cfg : Document) (table key : String) (default : Value) : Value :=
  ((tableOf cfg table).get? key).getD default

def sortedEntries {ν : Type} (d : OrderedDict String ν) : List (String × ν) :=
  d.entries.mergeSort fun e f => decide (e.1 ≤ f.1)

def metaLine (e : String × Value) : Checked String := do pure (pairLine (tomlKey e.1) (← tomlStr e.2))

def metaLines (cfg : Document) : Checked (List String) :=
  match cfg.get? "meta" with
  | some (.table entries) => do pure ("" :: "[meta]" :: (← (sortedEntries entries).mapM metaLine))
  | _ => pure []

/-- `dumps_device`. The version is printed without the limit that the interpreter sets to digits. -/
def dumpsDevice (cfg : Document) : Checked String := do
  let version ← tomlInt (mergedScalar cfg "schema_version" (.int defaultDevice.schemaVersion))
  let cameraName ← tomlStr (mergedScalar cfg "camera_name" (.str defaultDevice.cameraName))
  let fingerprint ← tomlStr (mergedScalar cfg "fingerprint" (.str defaultDevice.fingerprint))
  let server ← tomlStr (mergedEntry cfg "prusa" "server" (.str defaultDevice.server))
  let enabled ← tomlBool (mergedEntry cfg "mqtt" "enabled" (.bool defaultDevice.enabled))
  let uri ← tomlStr (mergedEntry cfg "mqtt" "uri" (.str defaultDevice.uri))
  let clientId ← tomlStr (mergedEntry cfg "mqtt" "client_id" (.str defaultDevice.clientId))
  let discoveryPrefix ← tomlStr (mergedEntry cfg "mqtt" "discovery_prefix" (.str defaultDevice.discoveryPrefix))
  let topicPrefix ← tomlStr (mergedEntry cfg "mqtt" "topic_prefix" (.str defaultDevice.topicPrefix))
  let caFile ← tomlStr (mergedEntry cfg "mqtt" "ca_file" (.str defaultDevice.caFile))
  let hostname ← tomlStr (mergedEntry cfg "admin" "hostname" (.str defaultDevice.hostname))
  let ntpServers ← validateNtpServers (mergedEntry cfg "network" "ntp_servers" (.array []))
  let metaText ← metaLines cfg
  let lines := [
    pairLine "schema_version" version, pairLine "camera_name" cameraName, pairLine "fingerprint" fingerprint, "",
    "[prusa]", pairLine "server" server, "",
    "[mqtt]", pairLine "enabled" enabled, pairLine "uri" uri, pairLine "client_id" clientId,
    pairLine "discovery_prefix" discoveryPrefix, pairLine "topic_prefix" topicPrefix, pairLine "ca_file" caFile, "",
    "[admin]", pairLine "hostname" hostname, "",
    "[network]", pairLine "ntp_servers" ("[" ++ ", ".intercalate (ntpServers.map quoted) ++ "]")] ++ metaText
  pure ("\n".intercalate lines ++ "\n")

def secretLines (cfg : Document) (table : String × List String) : Checked (List String) := do
  let entries := tableOf cfg table.1
  let lines ← (table.2.filterMap fun key => (entries.get? key).map fun v => (key, v)).mapM fun e => do
    pure (pairLine e.1 (← tomlStr (.str (← expectStr (table.1 ++ "." ++ e.1) e.2))))
  pure (if lines = [] then [] else ("[" ++ table.1 ++ "]") :: lines)

def dumpsSecrets (cfg : Document) : Checked String := do
  let blocks := (← secretTables.mapM (secretLines cfg)).filter (· ≠ [])
  pure (if blocks = [] then "" else "\n\n".intercalate (blocks.map "\n".intercalate) ++ "\n")

section Quoting

theorem unicode_hex : ∀ n < 0x80,
    unicode ['0', '0', Nat.digitChar (n/16), Nat.digitChar (n%16)] = some (Char.ofNat n) := by
  decide

theorem readString_escapeChar (c : Char) (rest : List Char) :
    readString (escapeChar c ++ rest) = (readString rest).map fun r => (c :: r.1, r.2) := by
  unfold escapeChar
  split_ifs with hquote hback hnewline hreturn htab hcontrol
  · subst hquote
    exact readString_short rfl rest
  · subst hback
    exact readString_short rfl rest
  · subst hnewline
    exact readString_short rfl rest
  · subst hreturn
    exact readString_short rfl rest
  · subst htab
    exact readString_short rfl rest
  · have hhex := unicode_hex c.toNat (by omega)
    rw [Char.ofNat_toNat] at hhex
    exact readString_unicode hhex rest
  · have hlegal : illegal c = false := by
      simp only [illegal, Bool.or_eq_false_iff, Bool.and_eq_false_iff, decide_eq_false_iff_not, beq_eq_false_iff_ne]
      omega
    exact readString_plain hquote hback hlegal rest

theorem hexDigit_ne_newline : ∀ n < 16, Nat.digitChar n ≠ '\n' := by decide

theorem newline_notMem_escapeChar (c : Char) : '\n' ∉ escapeChar c := by
  unfold escapeChar
  split_ifs with hquote hback hnewline hreturn htab hcontrol
  · decide
  · decide
  · decide
  · decide
  · decide
  · have hhigh := hexDigit_ne_newline (c.toNat/16) (by omega)
    have hlow := hexDigit_ne_newline (c.toNat%16) (by omega)
    simp [hhigh.symm, hlow.symm]
  · simp [Ne.symm hnewline]

theorem head?_escapeChar (c : Char) : (escapeChar c).head? ≠ some '"' := by
  unfold escapeChar
  split_ifs with hquote
  · decide
  · decide
  · decide
  · decide
  · decide
  · simp
  · simpa using hquote

variable (s : String)

theorem toList_quoted : (quoted s).toList = '"' :: (s.toList.flatMap escapeChar ++ ['"']) :=
  String.toList_ofList

theorem newline_notMem_quoted : '\n' ∉ (quoted s).toList := by
  simp [toList_quoted, newline_notMem_escapeChar]

theorem head?_flatMap_escapeChar (cs : List Char) : (cs.flatMap escapeChar).head? ≠ some '"' := by
  cases cs with
  | nil => simp
  | cons c cs =>
    have hne : escapeChar c ≠ [] := by
      unfold escapeChar
      split_ifs <;> simp
    rw [List.flatMap_cons, List.head?_append_of_ne_nil _ hne]
    exact head?_escapeChar c

theorem readScalar_quoted {rest : List Char} (hrest : rest.head? ≠ some '"') :
    readScalar ((quoted s).toList ++ rest) = some (.str s, rest) := by
  have hread := readString_flatMap readString_escapeChar s.toList rest
  rw [toList_quoted, List.cons_append, List.append_assoc, List.singleton_append,
    readScalar_string hread (head?_flatMap_escapeChar _) hrest, String.ofList_toList]

theorem written_quoted : Written (quoted s) (.str s) where
  read := by
    have hread := @readScalar_quoted s [] (by simp)
    rw [List.append_nil] at hread
    rw [readValue_scalar (by simp [toList_quoted]), hread]
  start := by
    rw [toList_quoted]
    rintro c ⟨⟩
    decide
  newline := newline_notMem_quoted s

theorem scans_quoted : Scans (quoted s).toList (.str s) where
  start := ⟨'"', _, toList_quoted s, by decide, by decide⟩
  read := by
    intro rest hrest
    apply readScalar_quoted
    rcases hrest with h | h
    · simp [h]
    · simp [h]

theorem written_int (n : ℤ) : Written (toString n) (.int n) := written_word (isWord_repr n) (wordValue_repr n)

theorem written_bool (b : Bool) : Written (if b then "true" else "false") (.bool b) := by
  cases b with
  | false => exact written_word (List.all_eq_true.mp (by decide)) (by rw [wordValue, if_neg (by decide), if_pos (by decide)])
  | true => exact written_word (List.all_eq_true.mp (by decide)) (by rw [wordValue, if_pos (by decide)])

theorem written_array (names : List String) :
    Written ("[" ++ ", ".intercalate (names.map quoted) ++ "]") (.array (names.map .str)) := by
  obtain ⟨pieces, hpieces⟩ : ∃ pieces : List (List Char × Value), pieces = names.map fun s => ((quoted s).toList, .str s) :=
    ⟨_, rfl⟩
  have htext : ("[" ++ ", ".intercalate (names.map quoted) ++ "]").toList =
      '[' :: ([',', ' '].intercalate (pieces.map Prod.fst) ++ [']']) := by
    simp [hpieces, Function.comp_def]
  have hvalues : pieces.map Prod.snd = names.map .str := by
    simp [hpieces, Function.comp_def]
  have hscans : ∀ p ∈ pieces, Scans p.1 p.2 := by
    intro p hp
    rw [hpieces] at hp
    obtain ⟨s, -, hs⟩ := List.mem_map.mp hp
    rw [← hs]
    exact scans_quoted s
  constructor
  · rw [htext, readValue_array pieces hscans, hvalues]
  · rw [htext]
    rintro c ⟨⟩
    decide
  · have hitems : '\n' ∉ [',', ' '].intercalate ((names.map quoted).map String.toList) := by
      apply notMem_intercalate (by decide)
      intro cs hcs
      obtain ⟨text, htext, rfl⟩ := List.mem_map.mp hcs
      obtain ⟨s, -, rfl⟩ := List.mem_map.mp htext
      exact newline_notMem_quoted s
    simpa using hitems

end Quoting

end PiBuddyCam.Config
