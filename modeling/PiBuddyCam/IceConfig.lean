import PiBuddyCam.ProtoRoundTrip
import PiBuddyCam.PyText

/-! The camera's WebRTC message and the ICE servers in its field 8: `_iter_fields`,
`decode_camera_webrtc_message` and `decode_ice_config` of `app/proto.py`. -/
namespace PiBuddyCam.Proto

def rawPayload (wireType : ℕ) (data : Bytes) : Option (Value × Bytes) :=
  match wireType with
  | 0 => some (.int (decodeVarint data).1, (decodeVarint data).2)
  | 2 =>
    let length := (decodeVarint data).1
    let rest := (decodeVarint data).2
    some (.bytes (rest.take length), rest.drop length)
  | 5 => some (.bytes (data.take 4), data.drop 4)
  | 1 => some (.bytes (data.take 8), data.drop 8)
  | _ => none

structure Field where
  number : ℕ
  wire : ℕ
  value : Value

def rawField (data : Bytes) : Option (Field × Bytes) :=
  if data = [] then none
  else
    let tag := (decodeVarint data).1
    (rawPayload (tag &&& 0x07) (decodeVarint data).2).map
      (fun payload => (⟨tag >>> 3, tag &&& 0x07, payload.1⟩, payload.2))

variable {data rest : Bytes}

theorem readPayload_of_rawPayload {wireType : ℕ} {v : Value}
    (h : rawPayload wireType data = some (v, rest)) : ∃ v', readPayload wireType data = some (v', rest) := by
  unfold rawPayload at h
  split at h
  · exact ⟨_, h⟩
  · obtain ⟨-, rfl⟩ := Prod.mk.inj (Option.some.inj h)
    exact ⟨_, rfl⟩
  · exact ⟨_, h⟩
  · exact ⟨_, h⟩
  · exact absurd h (by simp)

theorem rawPayload_bytes_length_le {wireType : ℕ} {data rest v : Bytes}
    (h : rawPayload wireType data = some (.bytes v, rest)) : v.length ≤ data.length := by
  have htake (n : ℕ) (l : Bytes) : (l.take n).length ≤ l.length := List.length_take_le' n l
  unfold rawPayload at h
  split at h
  · cases (Prod.mk.inj (Option.some.inj h)).1
  · obtain ⟨hv, -⟩ := Prod.mk.inj (Option.some.inj h)
    rw [← Value.bytes.inj hv]
    exact (htake _ _).trans (Base128.decodeFrom_length_le 0 0 data)
  · obtain ⟨hv, -⟩ := Prod.mk.inj (Option.some.inj h)
    rw [← Value.bytes.inj hv]
    exact htake _ _
  · obtain ⟨hv, -⟩ := Prod.mk.inj (Option.some.inj h)
    rw [← Value.bytes.inj hv]
    exact htake _ _
  · exact absurd h (by simp)

theorem rawField_length_lt {f : Field} (h : rawField data = some (f, rest)) :
    rest.length < data.length ∧ ∀ v, f.value = .bytes v → v.length < data.length := by
  rw [rawField] at h
  split_ifs at h with hd
  obtain ⟨⟨value, rest'⟩, hp, he⟩ := Option.map_eq_some_iff.mp h
  obtain ⟨rfl, rfl⟩ := Prod.mk.inj he
  obtain ⟨v', hv'⟩ := readPayload_of_rawPayload hp
  have htag := Base128.decode_length_lt data hd
  refine ⟨(readPayload_length_le _ _ _ _ hv').trans_lt htag, fun v hv => ?_⟩
  obtain rfl : value = .bytes v := hv
  exact (rawPayload_bytes_length_le hp).trans_lt htag

def iterFields (data : Bytes) : List Field :=
  match h : rawField data with
  | none => []
  | some (f, rest) =>
    have := (rawField_length_lt h).1
    f :: iterFields rest
termination_by data.length

theorem iterFields_nil : iterFields [] = [] := by
  rw [iterFields]
  rfl

theorem iterFields_of_rawField {f : Field} (h : rawField data = some (f, rest)) :
    iterFields data = f :: iterFields rest := by
  rw [iterFields]
  split
  · next hn => rw [hn] at h; exact absurd h (by simp)
  · next f' rest' hs =>
    rw [hs] at h
    obtain ⟨rfl, rfl⟩ := Prod.mk.inj (Option.some.inj h)
    rfl

theorem length_lt_of_mem_iterFields {data v : Bytes} {f : Field} (hf : f ∈ iterFields data)
    (hv : f.value = .bytes v) : v.length < data.length := by
  induction hn : data.length using Nat.strong_induction_on generalizing data with
  | _ n ih =>
    subst hn
    cases hread : rawField data with
    | none =>
      rw [iterFields] at hf
      split at hf
      · exact absurd hf List.not_mem_nil
      · next hs => exact absurd (hread.symm.trans hs) (by simp)
    | some p =>
      obtain ⟨g, rest⟩ := p
      obtain ⟨hrest, hg⟩ := rawField_length_lt hread
      rw [iterFields_of_rawField hread] at hf
      rcases List.mem_cons.mp hf with rfl | hf
      · exact hg v hv
      · exact (ih _ hrest hf rfl).trans hrest

/-- The message of `decode_camera_webrtc_message`. -/
structure CameraMessage where
  requestId : Value
  clientId : Value
  sessionId : Value
  field4 : Value
  field4Fields : OrderedDict ℤ Value
  field5 : Value
  field6 : Value
  field7 : Value
  iceConfig : Value
  field9 : Value
  raw : OrderedDict ℤ Value

def decodeCameraWebrtcMessage (data : Bytes) : CameraMessage :=
  let fields := decodeMessage data
  let get (number : ℤ) (default : Value) := (fields.get? number).getD default
  { requestId := get 1 (.text "")
    clientId := get 2 (.text "")
    sessionId := get 3 (.text "")
    field4 := get 4 (.text "")
    field4Fields :=
      match (iterFields data).find? fun f => f.number == 4 && f.wire == 2 with
      | some ⟨_, _, .bytes value⟩ => decodeMessage value
      | _ => .empty
    field5 := get 5 (.int 0)
    field6 := get 6 (.int 0)
    field7 := get 7 (.int 0)
    iceConfig := get 8 (.bytes [])
    field9 := get 9 (.bytes [])
    raw := fields }

/-- `str.isdigit` of a character. Outside of ASCII it depends on the Unicode tables. -/
structure Unicode where
  isdigit : Char → Bool
  ascii : ∀ c, c.toNat < 128 → isdigit c = c.isDigit

structure IceServer where
  id : Value
  host : String
  port : ℤ
  type : ℤ

structure IceConfig where
  servers : List IceServer := []
  username : String := ""
  credential : String := ""

/-- `TypeError`: a text or an integer where bytes are read. -/
inductive IceError where
  | typeError
  deriving DecidableEq

def looksLikeUsername (u : Unicode) (text : String) : Bool :=
  let rest := text.toList.filter (· ≠ ':')
  text.toList.contains ':' && rest ≠ [] && rest.all u.isdigit

def looksLikeCredential (text : String) : Bool :=
  text.length ≥ 16 && PyText.endswith text "=" && !text.toList.contains ' '

/-- The server that a decoded element describes, if its fields have the right types. -/
def serverOf (inner : OrderedDict ℤ Value) : Option IceServer :=
  match inner.get? 2, inner.get? 3, inner.get? 4 with
  | some (.text host), some (.int port), some (.int type) =>
    some ⟨(inner.get? 1).getD (.int 0), host, port, type⟩
  | _, _, _ => none

/-- What `walk` does with one length-delimited element; `none` when it goes into it. -/
def element (u : Unicode) (config : IceConfig) (value : Bytes) : Option IceConfig :=
  let text := utf8Decode value
  if text.any (looksLikeUsername u) then some { config with username := text.getD "" }
  else if text.any looksLikeCredential then some { config with credential := text.getD "" }
  else (serverOf (decodeMessage value)).map fun server => { config with servers := config.servers ++ [server] }

def walk (u : Unicode) (config : IceConfig) (blob : Bytes) : IceConfig :=
  (iterFields blob).attach.foldl (fun config f =>
    if f.1.wire = 2 then
      match hv : f.1.value with
      | .bytes value =>
        have := length_lt_of_mem_iterFields f.2 hv
        (element u config value).getD (walk u config value)
      | _ => config
    else config) config
termination_by blob.length

def decodeIceConfig (u : Unicode) : Value → Except IceError IceConfig
  | .bytes data => .ok (walk u {} data)
  -- the loop of `_iter_fields` does not start on an empty text
  | .text s => if s = "" then .ok {} else .error .typeError
  | _ => .error .typeError

def visit (u : Unicode) (config : IceConfig) (f : Field) : IceConfig :=
  if f.wire = 2 then
    match f.value with
    | .bytes value => (element u config value).getD (walk u config value)
    | _ => config
  else config

theorem walk_eq (u : Unicode) (config : IceConfig) (blob : Bytes) :
    walk u config blob = (iterFields blob).foldl (visit u) config := by
  rw [walk]
  have hvisit : ∀ (c : IceConfig) (f : { x // x ∈ iterFields blob }),
      (if f.1.wire = 2 then
        match hv : f.1.value with
        | .bytes value => (element u c value).getD (walk u c value)
        | _ => c
      else c) = visit u c f.1 := by
    intro c f
    unfold visit
    cases f.1.value <;> rfl
  simp only [hvisit]
  exact List.foldl_attach

section Texts

theorem utf8Encode_append (s t : String) : utf8Encode (s ++ t) = utf8Encode s ++ utf8Encode t := by
  simp [utf8Encode]

theorem utf8Encode_cons (c : Char) (cs : List Char) :
    utf8Encode (String.ofList (c :: cs)) = String.utf8EncodeChar c ++ utf8Encode (String.ofList cs) := by
  simp [utf8Encode, List.utf8Encode]

theorem toNat_of_utf8EncodeChar {c : Char} {b : UInt8} {rest : Bytes} (hb : b.toNat < 128)
    (h : String.utf8EncodeChar c = b :: rest) : c.toNat = b.toNat := by
  have hhead (n : ℕ) (l : Bytes) (hn : UInt8.ofNat n :: l = b :: rest) : n%256 = b.toNat := by
    rw [← (List.cons.inj hn).1, UInt8.toNat_ofNat']
  unfold String.utf8EncodeChar at h
  dsimp only at h
  change c.val.toNat = b.toNat
  split_ifs at h with h1 h2 h3
  all_goals
    have hmod := hhead _ _ h
    omega

theorem newline_mem {text : String} {rest : Bytes} (h : utf8Encode text = 0x0a :: rest) : '\n' ∈ text.toList := by
  cases htext : text.toList with
  | nil =>
    have hempty : utf8Encode "" = [] := by decide
    rw [String.toList_eq_nil_iff.mp htext, hempty] at h
    cases h
  | cons c cs =>
    rw [← String.ofList_toList (s := text), htext, utf8Encode_cons] at h
    cases hc : String.utf8EncodeChar c with
    | nil => exact absurd hc String.utf8EncodeChar_ne_nil
    | cons b l =>
      rw [hc] at h
      obtain ⟨rfl, -⟩ := List.cons.inj h
      have hnat : c.toNat = 10 := toNat_of_utf8EncodeChar (by decide) hc
      have hnewline : c = '\n' := Char.toNat_inj.mp hnat
      rw [hnewline]
      exact List.mem_cons_self

theorem getLast_of_endswith {text : String} (h : PyText.endswith text "=" = true) :
    (utf8Encode text).getLast? = some 0x3d := by
  obtain ⟨l, hl⟩ := List.isSuffixOf_iff_suffix.mp h
  have htext : text = String.ofList l ++ "=" := by
    rw [← String.toList_inj, String.toList_append, String.toList_ofList]
    exact hl.symm
  have hequals : utf8Encode "=" = [0x3d] := by decide
  rw [htext, utf8Encode_append, hequals, List.getLast?_concat]

/-- Bytes that start with a newline and do not end in `=` are neither user name nor
credential, whether they are text or not. -/
theorem not_looksLike (u : Unicode) {value rest : Bytes} (hfirst : value = 0x0a :: rest)
    (hlast : value.getLast? ≠ some 0x3d) :
    (utf8Decode value).any (looksLikeUsername u) = false ∧ (utf8Decode value).any looksLikeCredential = false := by
  cases htext : utf8Decode value with
  | none => exact ⟨rfl, rfl⟩
  | some text =>
    have hvalue := utf8Encode_of_utf8Decode htext
    have hnewline : '\n' ∈ text.toList := newline_mem (hvalue.trans hfirst)
    constructor
    · have hdigit : u.isdigit '\n' = false := u.ascii '\n' (by decide)
      have hmem : '\n' ∈ text.toList.filter (· ≠ ':') := List.mem_filter.mpr ⟨hnewline, by decide⟩
      have hall : (text.toList.filter (· ≠ ':')).all u.isdigit = false := by
        rw [List.all_eq_false]
        exact ⟨'\n', hmem, by rw [hdigit]; exact Bool.false_ne_true⟩
      simp only [Option.any_some, looksLikeUsername, hall, Bool.and_false]
    · have hend : PyText.endswith text "=" = false := by
        rw [← Bool.not_eq_true]
        intro hend
        exact hlast (hvalue ▸ getLast_of_endswith hend)
      simp only [Option.any_some, looksLikeCredential, hend, Bool.and_false, Bool.false_and]

end Texts

structure ServerEntry where
  id : String
  host : String
  port : ℕ
  type : ℕ

def encodeServer (s : ServerEntry) : Bytes :=
  encodeStringField 1 s.id ++ encodeStringField 2 s.host ++ encodeUintField 3 s.port ++ encodeUintField 4 s.type

def encodeServers (servers : List ServerEntry) : Bytes :=
  servers.flatMap fun s => lengthDelimited 1 (encodeServer s)

def encodeIceConfig (servers : List ServerEntry) : Bytes := lengthDelimited 1 (encodeServers servers)

def ServerEntry.decoded (s : ServerEntry) : IceServer := ⟨.text s.id, s.host, s.port, s.type⟩

section Layout

theorem rawField_lengthDelimited (k : ℕ) (payload rest : Bytes) :
    rawField (lengthDelimited k payload ++ rest) = some (⟨k, 2, .bytes payload⟩, rest) := by
  have hcast : (k : ℤ)*8 + 2 = ((k*8 + 2 : ℕ) : ℤ) := by push_cast; ring
  have hne : lengthDelimited k payload ++ rest ≠ [] := by
    rw [lengthDelimited, hcast, encodeVarint_eq]
    simp [Base128.encode_ne_nil]
  rw [rawField, if_neg hne, lengthDelimited, hcast, List.append_assoc, List.append_assoc, decodeVarint_encodeVarint]
  dsimp only
  rw [(tag_split k 2 (by omega)).1, (tag_split k 2 (by omega)).2]
  simp only [rawPayload, decodeVarint_encodeVarint, List.take_left, List.drop_left, Option.map_some]

variable (s : ServerEntry) (servers : List ServerEntry)

theorem encodeServers_cons :
    encodeServers (s :: servers) = lengthDelimited 1 (encodeServer s) ++ encodeServers servers := rfl

theorem iterFields_encodeServers :
    iterFields (encodeServers servers) = servers.map fun s => ⟨1, 2, .bytes (encodeServer s)⟩ := by
  induction servers with
  | nil => exact iterFields_nil
  | cons s servers ih =>
    have hread : rawField (lengthDelimited 1 (encodeServer s) ++ encodeServers servers) =
        some (⟨1, 2, .bytes (encodeServer s)⟩, encodeServers servers) := rawField_lengthDelimited 1 _ _
    rw [encodeServers_cons, iterFields_of_rawField hread, ih, List.map_cons]

theorem serverOf_encodeServer : serverOf (decodeMessage (encodeServer s)) = some s.decoded := by
  have hmessage : decodeMessage (encodeServer s) =
      (((OrderedDict.empty.set 1 (.text s.id)).set 2 (.text s.host)).set 3 (.int s.port)).set 4 (.int s.type) := by
    have htext (k : ℕ) (x : String) (rest : Bytes) :
        readField (encodeStringField k x ++ rest) = some (((k : ℤ), .text x), rest) := by
      rw [encodeStringField, readField_lengthDelimited, textOrBytes_utf8Encode]
    have hlast : readField (encodeUintField (4 : ℕ) s.type) = some ((((4 : ℕ) : ℤ), .int s.type), []) := by
      have h := readField_uint 4 s.type []
      rwa [List.append_nil] at h
    have hcast : encodeServer s = encodeStringField (1 : ℕ) s.id ++ (encodeStringField (2 : ℕ) s.host ++
        (encodeUintField (3 : ℕ) s.port ++ encodeUintField (4 : ℕ) s.type)) := by
      simp only [encodeServer, List.append_assoc, Nat.cast_one, Nat.cast_ofNat]
    rw [hcast, decodeMessage, decodeFields_of_readField _ _ _ _ (htext 1 s.id _),
      decodeFields_of_readField _ _ _ _ (htext 2 s.host _), decodeFields_of_readField _ _ _ _ (readField_uint 3 s.port _),
      decodeFields_of_readField _ _ _ _ hlast, decodeFields_nil]
    rfl
  rw [hmessage]
  simp [serverOf, OrderedDict.get?_set, ServerEntry.decoded]

theorem serverOf_encodeServers :
    serverOf (decodeMessage (encodeServers servers)) = none := by
  have hget (d : OrderedDict ℤ Value) : (decodeFields d (encodeServers servers)).get? 2 = d.get? 2 := by
    induction servers generalizing d with
    | nil => rw [encodeServers, List.flatMap_nil, decodeFields_nil]
    | cons s servers ih =>
      have hread : readField (lengthDelimited 1 (encodeServer s) ++ encodeServers servers) =
          some ((1, textOrBytes (encodeServer s)), encodeServers servers) := readField_lengthDelimited 1 _ _
      rw [encodeServers_cons, decodeFields_of_readField d _ _ _ hread]
      exact (ih _).trans (OrderedDict.get?_set_of_ne d _ (show (2 : ℤ) ≠ 1 by decide))
  rw [serverOf, decodeMessage, hget, OrderedDict.get?_empty]

theorem encodeVarint_small {n : ℕ} (h : n ≤ 127) : encodeVarint n = [UInt8.ofNat n] := by
  rw [encodeVarint_eq, Base128.encode, if_neg (by omega)]

theorem encodeServer_first : ∃ rest, encodeServer s = 0x0a :: rest := by
  have htag : encodeVarint ((1 : ℤ)*8 + 2) = [0x0a] := encodeVarint_small (n := 10) (by omega)
  simp only [encodeServer, encodeStringField, lengthDelimited, htag, List.append_assoc, List.cons_append]
  exact ⟨_, rfl⟩

theorem encodeServer_last {s : ServerEntry} (h : s.type ≤ 3) :
    (encodeServer s).getLast? = some (UInt8.ofNat s.type) := by
  rw [encodeServer, encodeUintField, encodeUintField, encodeVarint_small (n := s.type) (by omega),
    ← List.append_assoc, List.getLast?_concat]

variable {servers : List ServerEntry}

theorem encodeServers_first (h : servers ≠ []) :
    ∃ rest, encodeServers servers = 0x0a :: rest := by
  obtain ⟨s, servers, rfl⟩ := List.exists_cons_of_ne_nil h
  have htag : encodeVarint ((1 : ℤ)*8 + 2) = [0x0a] := encodeVarint_small (n := 10) (by omega)
  simp only [encodeServers, List.flatMap_cons, lengthDelimited, htag, List.append_assoc, List.cons_append]
  exact ⟨_, rfl⟩

theorem encodeServers_last (h : servers ≠ []) (htype : ∀ s ∈ servers, s.type ≤ 3) :
    ∃ s ∈ servers, (encodeServers servers).getLast? = some (UInt8.ofNat s.type) := by
  obtain ⟨servers, s, rfl⟩ := (List.eq_nil_or_concat' servers).resolve_left h
  have hs : s ∈ servers ++ [s] := List.mem_append_right _ List.mem_cons_self
  have hlast := encodeServer_last (htype s hs)
  have hne : encodeServer s ≠ [] := by
    obtain ⟨rest, hrest⟩ := encodeServer_first s
    rw [hrest]
    exact List.cons_ne_nil _ _
  refine ⟨s, hs, ?_⟩
  simp only [encodeServers, List.flatMap_append, List.flatMap_cons, List.flatMap_nil, List.append_nil, lengthDelimited]
  rw [List.getLast?_append_of_ne_nil _ (List.append_ne_nil_of_right_ne_nil _ hne),
    List.getLast?_append_of_ne_nil _ hne, hlast]

theorem ofNat_ne_equals {n : ℕ} (h : n ≤ 3) : some (UInt8.ofNat n) ≠ some 0x3d := by
  intro heq
  have hnat := congrArg UInt8.toNat (Option.some.inj heq)
  rw [UInt8.toNat_ofNat'] at hnat
  have hequals : (0x3d : UInt8).toNat = 61 := rfl
  omega

variable (u : Unicode)

theorem element_encodeServer {s : ServerEntry} (h : s.type ≤ 3) (config : IceConfig) :
    element u config (encodeServer s) = some { config with servers := config.servers ++ [s.decoded] } := by
  obtain ⟨rest, hfirst⟩ := encodeServer_first s
  have hlast : (encodeServer s).getLast? ≠ some 0x3d := by
    rw [encodeServer_last h]
    exact ofNat_ne_equals h
  obtain ⟨hname, hcredential⟩ := not_looksLike u hfirst hlast
  simp only [element, hname, hcredential, serverOf_encodeServer, Option.map_some, Bool.false_eq_true, if_false]

theorem element_encodeServers (hne : servers ≠ []) (h : ∀ s ∈ servers, s.type ≤ 3)
    (config : IceConfig) : element u config (encodeServers servers) = none := by
  obtain ⟨rest, hfirst⟩ := encodeServers_first hne
  obtain ⟨s, hs, hlast⟩ := encodeServers_last hne h
  have hequals : (encodeServers servers).getLast? ≠ some 0x3d := by
    rw [hlast]
    exact ofNat_ne_equals (h s hs)
  obtain ⟨hname, hcredential⟩ := not_looksLike u hfirst hequals
  simp only [element, hname, hcredential, serverOf_encodeServers, Option.map_none, Bool.false_eq_true, if_false]

theorem walk_encodeServers (h : ∀ s ∈ servers, s.type ≤ 3) (config : IceConfig) :
    walk u config (encodeServers servers) =
      { config with servers := config.servers ++ servers.map ServerEntry.decoded } := by
  rw [walk_eq, iterFields_encodeServers]
  induction servers generalizing config with
  | nil => rw [List.map_nil, List.map_nil, List.foldl_nil, List.append_nil]
  | cons s servers ih =>
    have hvisit : visit u config ⟨1, 2, .bytes (encodeServer s)⟩ =
        { config with servers := config.servers ++ [s.decoded] } := by
      simp only [visit, element_encodeServer u (h s List.mem_cons_self), Option.getD_some, if_true]
    rw [List.map_cons, List.foldl_cons, hvisit, ih fun s' hs' => h s' (List.mem_cons_of_mem s hs')]
    simp only [List.map_cons, List.append_assoc, List.cons_append, List.nil_append]

theorem decodeIceConfig_bytes (hne : servers ≠ []) (h : ∀ s ∈ servers, s.type ≤ 3) :
    decodeIceConfig u (.bytes (encodeIceConfig servers)) = .ok { servers := servers.map ServerEntry.decoded } := by
  have hread : rawField (encodeIceConfig servers) = some (⟨1, 2, .bytes (encodeServers servers)⟩, []) := by
    have hraw := rawField_lengthDelimited 1 (encodeServers servers) []
    rwa [List.append_nil] at hraw
  have hwalk := walk_encodeServers u h {}
  rw [decodeIceConfig, walk_eq, iterFields_of_rawField hread, iterFields_nil, List.foldl_cons, List.foldl_nil]
  simp only [visit, element_encodeServers u hne h, Option.getD_none, if_true, hwalk, List.nil_append]

theorem decodeIceConfig_text {text : String}
    (htext : utf8Decode (encodeIceConfig servers) = some text) :
    decodeIceConfig u (.text text) = .error .typeError := by
  have hne : text ≠ "" := by
    rintro rfl
    have hempty : encodeIceConfig servers = [] := (utf8Encode_of_utf8Decode htext).symm
    have htag : encodeVarint ((1 : ℤ)*8 + 2) = [0x0a] := encodeVarint_small (n := 10) (by omega)
    rw [encodeIceConfig, lengthDelimited, htag] at hempty
    cases hempty
  rw [decodeIceConfig, if_neg hne]

end Layout

theorem iceConfig_of_encodeItems {before after : List (ℤ × Value)} {payload data : Bytes}
    (hbefore : ∀ e ∈ before, 1 ≤ e.1 ∧ Encodable e.2) (hafter : ∀ e ∈ after, 1 ≤ e.1 ∧ Encodable e.2 ∧ e.1 ≠ 8)
    (hdata : encodeItems (before ++ (8, .bytes payload) :: after) = .ok data) :
    (decodeCameraWebrtcMessage data).iceConfig = textOrBytes payload := by
  have hitems : ∀ e ∈ before ++ (8, Value.bytes payload) :: after, 1 ≤ e.1 ∧ Encodable e.2 := by
    intro e he
    rcases List.mem_append.mp he with he | he
    · exact hbefore e he
    rcases List.mem_cons.mp he with rfl | he
    · exact ⟨by norm_num, trivial⟩
    · exact ⟨(hafter e he).1, (hafter e he).2.1⟩
  obtain ⟨data', hdata', hdecode⟩ := decodeFields_encodeItems _ hitems
  obtain rfl : data' = data := Except.ok.inj (hdata'.symm.trans hdata)
  have hwire : ∀ e ∈ wireItems after, e.1 ≠ 8 := by
    intro e he
    obtain ⟨e', he', hmap⟩ := List.mem_filterMap.mp he
    obtain ⟨v, -, rfl⟩ := Option.map_eq_some_iff.mp hmap
    exact (hafter e' he').2.2
  have hget : (decodeMessage data').get? 8 = some (textOrBytes payload) := by
    have hsplit : wireItems (before ++ (8, .bytes payload) :: after) =
        wireItems before ++ (8, textOrBytes payload) :: wireItems after := by
      rw [wireItems, List.filterMap_append]
      rfl
    rw [decodeMessage, hdecode, hsplit, List.foldl_append, List.foldl_cons]
    exact (OrderedDict.get?_foldl_set_of_ne hwire _).trans (OrderedDict.get?_set_self _ _ _)
  simp only [decodeCameraWebrtcMessage, hget, Option.getD_some]

/-- The servers in field 8 of a camera message come back, in their order and with nothing
else, exactly when their bytes are not valid UTF-8; otherwise the field arrives as text and
`decode_ice_config` raises. -/
theorem ice_servers_round_trip_iff (u : Unicode) {servers : List ServerEntry} (hne : servers ≠ [])
    (htype : ∀ s ∈ servers, 1 ≤ s.type ∧ s.type ≤ 3) {before after : List (ℤ × Value)} {data : Bytes}
    (hbefore : ∀ e ∈ before, 1 ≤ e.1 ∧ Encodable e.2) (hafter : ∀ e ∈ after, 1 ≤ e.1 ∧ Encodable e.2 ∧ e.1 ≠ 8)
    (hdata : encodeItems (before ++ (8, .bytes (encodeIceConfig servers)) :: after) = .ok data) :
    decodeIceConfig u (decodeCameraWebrtcMessage data).iceConfig =
        .ok { servers := servers.map ServerEntry.decoded } ↔
      utf8Decode (encodeIceConfig servers) = none := by
  rw [iceConfig_of_encodeItems hbefore hafter hdata, textOrBytes]
  cases htext : utf8Decode (encodeIceConfig servers) with
  | none =>
    have hok := decodeIceConfig_bytes u hne fun s hs => (htype s hs).2
    exact ⟨fun _ => rfl, fun _ => hok⟩
  | some text =>
    have herror := decodeIceConfig_text u htext
    rw [herror]
    exact ⟨fun h => absurd h (by simp), fun h => absurd h (by simp)⟩

def asciiDigits : Unicode := ⟨Char.isDigit, fun _ _ => rfl⟩

def turnsServer : ServerEntry := ⟨"t", "turn.lan", 443, 3⟩

def stunServer : ServerEntry := ⟨"s", "stun.lan", 80, 1⟩

def iceMessage (servers : List ServerEntry) : Bytes := lengthDelimited 8 (encodeIceConfig servers)

theorem encodeItems_iceMessage (servers : List ServerEntry) :
    encodeItems ([] ++ [(8, .bytes (encodeIceConfig servers))]) = .ok (iceMessage servers) := by
  rw [iceMessage, ← List.append_nil (lengthDelimited 8 (encodeIceConfig servers))]
  rfl

theorem turnsServer_round_trip :
    decodeIceConfig asciiDigits (decodeCameraWebrtcMessage (iceMessage [turnsServer])).iceConfig =
      .ok { servers := [turnsServer].map ServerEntry.decoded } :=
  (ice_servers_round_trip_iff asciiDigits (List.cons_ne_nil _ _)
    (List.forall_mem_singleton.mpr (by decide)) (List.forall_mem_nil _) (List.forall_mem_nil _)
    (encodeItems_iceMessage [turnsServer])).mpr (by decide +kernel)

theorem stunServer_raises :
    decodeIceConfig asciiDigits (decodeCameraWebrtcMessage (iceMessage [stunServer])).iceConfig =
      .error .typeError := by
  have htext : (utf8Decode (encodeIceConfig [stunServer])).isSome = true := by decide +kernel
  obtain ⟨text, htext⟩ := Option.isSome_iff_exists.mp htext
  rw [iceConfig_of_encodeItems (List.forall_mem_nil _) (List.forall_mem_nil _) (encodeItems_iceMessage [stunServer]),
    textOrBytes, htext]
  exact decodeIceConfig_text asciiDigits htext

end PiBuddyCam.Proto
