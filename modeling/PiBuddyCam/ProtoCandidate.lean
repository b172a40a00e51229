import PiBuddyCam.IceConfig
import PiBuddyCam.ProtoConfig
import PiBuddyCam.Utf8Text

/-! The candidate in a camera message: `encode_camera_webrtc_message` and `find_webrtc_candidate`
of `app/proto.py`. The search takes every text for a message that may hold it. -/
namespace PiBuddyCam.Proto

inductive WebrtcError where
  /-- `ValueError`: unsupported outbound WebRTC message type. -/
  | unsupportedType
  /-- `ValueError`: request_id must be a non-empty string. -/
  | emptyRequestId
  | proto (e : ProtoError)
  deriving DecidableEq

def webrtcCandidate : ℤ := 4

def cameraFields (token requestId fingerprint : String) (msgType : ℤ) : OrderedDict ℤ Value :=
  .ofList [(1, .text token), (2, .text requestId), (3, .text fingerprint), (5, .int msgType), (7, .int 1)]

def encodePair (first second : String) : Except ProtoError Bytes :=
  encodeMessage (.ofList [(1, .text first), (2, .text second)])

def encodeCameraWebrtcMessage (token requestId fingerprint : String) (msgType : ℤ) (sdp candidate mid : String) :
    Except WebrtcError Bytes := do
  if msgType < 1 ∨ 4 < msgType then throw .unsupportedType
  if requestId = "" then throw .emptyRequestId
  let fields := cameraFields token requestId fingerprint msgType
  let fields ← (if sdp ≠ "" then (encodePair sdp "").map fun raw => fields.set 4 (.bytes raw)
    else if candidate ≠ "" then (encodePair candidate mid).map fun raw => fields.set 4 (.bytes raw)
    else pure fields).mapError .proto
  (encodeMessage fields).mapError .proto

def stripAttribute (text : String) : String :=
  if PyText.startswith text "a=" then String.ofList (text.toList.drop 2) else text

def normalizeCandidate (text : String) : String :=
  if PyText.startswith (stripAttribute text) "candidate:" then stripAttribute text else ""

def firstFound (found : List String) : String := (found.find? (· ≠ "")).getD ""

def scanCandidate : ℕ → Value → String
  | 0, _ => ""
  | levels+1, .bytes raw =>
    let found := normalizeCandidate (String.ofList (Utf8.decodeReplace raw))
    if found ≠ "" then found else firstFound ((decodeMessage raw).entries.map fun e => scanCandidate levels e.2)
  | levels+1, .text s =>
    let found := normalizeCandidate s
    if found ≠ "" then found
    else firstFound ((decodeMessage (utf8Encode s)).entries.map fun e => scanCandidate levels e.2)
  | _+1, _ => ""

def findWebrtcCandidate (msg : CameraMessage) : String :=
  firstFound (msg.raw.entries.map fun e => scanCandidate 9 e.2)

section Slices

def Value.In (data : Bytes) (v : Value) : Prop := ∀ b, v.raw = some b → b <:+: data

variable {data rest : Bytes}

theorem Value.In.of_suffix {v : Value} (h : v.In rest) (hrest : rest <:+ data) : v.In data :=
  fun b hb => (h b hb).trans hrest.isInfix

theorem readPayload_in {wireType : ℕ} {v : Value} (h : readPayload wireType data = some (v, rest)) :
    rest <:+ data ∧ v.In data := by
  have hvarint : (decodeVarint data).2 <:+ data := Base128.decodeFrom_suffix 0 0 data
  have hbytes (n : ℕ) : (Value.bytes (data.take n)).In data := by
    rintro b hb
    rw [← Option.some.inj hb]
    exact (List.take_prefix n data).isInfix
  unfold readPayload at h
  split at h
  · obtain ⟨rfl, rfl⟩ := Prod.mk.inj (Option.some.inj h)
    exact ⟨hvarint, fun b hb => nomatch hb⟩
  · obtain ⟨rfl, rfl⟩ := Prod.mk.inj (Option.some.inj h)
    refine ⟨(List.drop_suffix _ _).trans hvarint, fun b hb => ?_⟩
    rw [raw_textOrBytes] at hb
    rw [← Option.some.inj hb]
    exact (List.take_prefix _ _).isInfix.trans hvarint.isInfix
  · obtain ⟨rfl, rfl⟩ := Prod.mk.inj (Option.some.inj h)
    exact ⟨List.drop_suffix _ _, hbytes 4⟩
  · obtain ⟨rfl, rfl⟩ := Prod.mk.inj (Option.some.inj h)
    exact ⟨List.drop_suffix _ _, hbytes 8⟩
  · exact absurd h (by simp)

theorem readField_in {e : ℤ × Value} (h : readField data = some (e, rest)) :
    rest <:+ data ∧ e.2.In data := by
  rw [readField] at h
  split_ifs at h
  obtain ⟨⟨v, rest'⟩, hp, he⟩ := Option.map_eq_some_iff.mp h
  obtain ⟨rfl, rfl⟩ := Prod.mk.inj he
  obtain ⟨hrest, hv⟩ := readPayload_in hp
  have htag : (decodeVarint data).2 <:+ data := Base128.decodeFrom_suffix 0 0 data
  exact ⟨hrest.trans htag, hv.of_suffix htag⟩

theorem decodeFields_in {raw data : Bytes} (hdata : data <:+ raw) {d : OrderedDict ℤ Value}
    (hd : ∀ e ∈ d.entries, e.2.In raw) : ∀ e ∈ (decodeFields d data).entries, e.2.In raw := by
  induction hn : data.length using Nat.strong_induction_on generalizing d data with
  | _ n ih =>
    subst hn
    cases hread : readField data with
    | none =>
      rw [decodeFields]
      split
      · exact hd
      · next hsome => exact absurd (hread.symm.trans hsome) (by simp)
    | some r =>
      obtain ⟨e, rest⟩ := r
      obtain ⟨hrest, hv⟩ := readField_in hread
      rw [decodeFields_of_readField d data rest e hread]
      apply ih rest.length (readField_length_lt data e rest hread) (hrest.trans hdata) _ rfl
      intro e' he'
      rcases OrderedDict.mem_entries_set he' with he' | rfl
      · exact hd e' he'
      · exact hv.of_suffix hdata

theorem decodeMessage_in (raw : Bytes) : ∀ e ∈ (decodeMessage raw).entries, e.2.In raw :=
  decodeFields_in List.suffix_rfl fun _ he => nomatch he

end Slices

section Search

def candidateText : List Char := "candidate:".toList

def Free (raw : Bytes) : Prop := ¬ Utf8.encode candidateText <:+: raw

theorem candidateText_eq : candidateText = ['c', 'a', 'n', 'd', 'i', 'd', 'a', 't', 'e', ':'] := by
  unfold candidateText
  decide

theorem plain_candidateText : ∀ c ∈ candidateText, Utf8.Plain c := by
  have hall : candidateText.all (fun c => decide (Utf8.Plain c)) = true := by
    rw [candidateText_eq]
    decide
  exact fun c hc => of_decide_eq_true (List.all_eq_true.mp hall c hc)

theorem utf8Encode_eq (s : String) : utf8Encode s = Utf8.encode s.toList := by
  have hlist (cs : List Char) : utf8Encode (String.ofList cs) = Utf8.encode cs := by
    induction cs with
    | nil => decide
    | cons c cs ih => rw [utf8Encode_cons, ih, Utf8.encode_cons]
  rw [← hlist, String.ofList_toList]

theorem free_utf8Encode {s : String} (h : ¬ candidateText <:+: s.toList) : Free (utf8Encode s) := by
  rw [Free, utf8Encode_eq]
  exact fun hin => h (Utf8.infix_of_encode plain_candidateText hin)

theorem prefix_of_normalizeCandidate {text : String} (h : normalizeCandidate text ≠ "") :
    candidateText <+: text.toList ∨ ['a', '='] ++ candidateText <+: text.toList := by
  have hstart : PyText.startswith (stripAttribute text) "candidate:" = true := by
    by_contra hnot
    exact h (if_neg hnot)
  replace hstart : candidateText <+: (stripAttribute text).toList := List.isPrefixOf_iff_prefix.mp hstart
  unfold stripAttribute at hstart
  split_ifs at hstart with ha
  · obtain ⟨rest, hrest⟩ := List.isPrefixOf_iff_prefix.mp ha
    have htext : ['a', '='] ++ rest = text.toList := hrest
    have hdrop : (['a', '='] ++ rest).drop 2 = rest := rfl
    rw [String.toList_ofList, ← htext, hdrop] at hstart
    rw [← htext]
    exact Or.inr ((List.prefix_append_right_inj _).mpr hstart)
  · exact Or.inl hstart

def Starts (raw : Bytes) : Prop :=
  Utf8.encode candidateText <+: raw ∨ Utf8.encode (['a', '='] ++ candidateText) <+: raw

variable {raw : Bytes}

theorem Free.not_starts (h : Free raw) : ¬ Starts raw := by
  rintro (hpre | hpre)
  · exact h hpre.isInfix
  · rw [Utf8.encode_append] at hpre
    exact h ((List.suffix_append _ _).isInfix.trans hpre.isInfix)

theorem Starts.head (h : Starts raw) : raw.head? = some 0x63 ∨ raw.head? = some 0x61 := by
  rw [Starts, candidateText_eq] at h
  rcases h with ⟨rest, rfl⟩ | ⟨rest, rfl⟩
  · exact Or.inl rfl
  · exact Or.inr rfl

theorem starts_of_text {text : String} (h : normalizeCandidate text ≠ "") : Starts (utf8Encode text) := by
  rw [utf8Encode_eq]
  rcases prefix_of_normalizeCandidate h with ⟨rest, hrest⟩ | ⟨rest, hrest⟩
  · left
    rw [← hrest, Utf8.encode_append]
    exact List.prefix_append _ _
  · right
    rw [← hrest, Utf8.encode_append _ rest]
    exact List.prefix_append _ _

theorem starts_of_bytes (h : normalizeCandidate (String.ofList (Utf8.decodeReplace raw)) ≠ "") :
    Starts raw := by
  have hfound := prefix_of_normalizeCandidate h
  rw [String.toList_ofList] at hfound
  have hname : ∀ c ∈ ['a', '='], Utf8.Plain c :=
    List.forall_mem_cons.mpr ⟨by decide, List.forall_mem_singleton.mpr (by decide)⟩
  have hplain : ∀ c ∈ ['a', '='] ++ candidateText, Utf8.Plain c :=
    List.forall_mem_append.mpr ⟨hname, plain_candidateText⟩
  exact hfound.imp (Utf8.prefix_of_decodeReplace plain_candidateText) (Utf8.prefix_of_decodeReplace hplain)

variable (levels : ℕ)

theorem scanCandidate_succ {v : Value} (hv : v.raw = some raw) (hstart : ¬ Starts raw) :
    scanCandidate (levels+1) v = firstFound ((decodeMessage raw).entries.map fun e => scanCandidate levels e.2) := by
  cases v with
  | bytes b =>
    obtain rfl : b = raw := Option.some.inj hv
    rw [scanCandidate]
    exact if_neg fun hfound => hstart (starts_of_bytes hfound)
  | text s =>
    obtain rfl : utf8Encode s = raw := Option.some.inj hv
    rw [scanCandidate]
    exact if_neg fun hfound => hstart (starts_of_text hfound)
  | none => cases hv
  | int n => cases hv
  | bool b => cases hv
  | float32 x => cases hv

theorem scanCandidate_of_none {v : Value} (hv : v.raw = none) : scanCandidate levels v = "" := by
  cases levels with
  | zero => rfl
  | succ levels =>
    cases v with
    | bytes b => cases hv
    | text s => cases hv
    | none => rfl
    | int n => rfl
    | bool b => rfl
    | float32 x => rfl

theorem firstFound_eq_empty {found : List String} (h : ∀ x ∈ found, x = "") : firstFound found = "" := by
  have hnone : found.find? (· ≠ "") = none := by
    rw [List.find?_eq_none]
    intro x hx
    simp [h x hx]
  rw [firstFound, hnone, Option.getD_none]

/-- At no level is there a candidate in bytes that are free of it: all that is looked into below
is a piece of them. -/
theorem scanCandidate_free {v : Value} (hv : v.raw = some raw) (hraw : Free raw) :
    scanCandidate levels v = "" := by
  induction levels generalizing v raw with
  | zero => rfl
  | succ levels ih =>
    rw [scanCandidate_succ levels hv hraw.not_starts]
    apply firstFound_eq_empty
    intro x hx
    obtain ⟨e, he, rfl⟩ := List.mem_map.mp hx
    cases hb : e.2.raw with
    | none => exact scanCandidate_of_none levels hb
    | some b => exact ih hb fun hin => hraw (hin.trans (decodeMessage_in raw e he b hb))

theorem normalizeCandidate_of_startswith {c : String}
    (h : PyText.startswith c "candidate:" = true ∨ PyText.startswith c "a=candidate:" = true) :
    normalizeCandidate c = stripAttribute c ∧ stripAttribute c ≠ "" := by
  have hstart : candidateText <+: (stripAttribute c).toList := by
    rcases h with h | h
    · obtain ⟨rest, hrest⟩ := List.isPrefixOf_iff_prefix.mp h
      replace hrest : candidateText ++ rest = c.toList := hrest
      have hnot : ¬ PyText.startswith c "a=" = true := by
        rw [PyText.startswith, ← hrest, candidateText_eq]
        exact Bool.false_ne_true
      rw [stripAttribute, if_neg hnot, ← hrest]
      exact List.prefix_append _ _
    · obtain ⟨rest, hrest⟩ := List.isPrefixOf_iff_prefix.mp h
      have hsplit : "a=candidate:".toList = ['a', '='] ++ candidateText := by
        rw [candidateText_eq]
        decide
      rw [hsplit] at hrest
      have ha : PyText.startswith c "a=" = true := by
        rw [PyText.startswith, ← hrest]
        rfl
      rw [stripAttribute, if_pos ha, String.toList_ofList, ← hrest]
      exact List.prefix_append _ _
  refine ⟨if_pos (List.isPrefixOf_iff_prefix.mpr hstart), fun hempty => ?_⟩
  rw [hempty, candidateText_eq] at hstart
  exact absurd hstart (by decide)

end Search

section Message

variable (token requestId fingerprint c m : String)

theorem encodePair_eq : encodePair c m = .ok (encodeStringField 1 c ++ (encodeStringField 2 m ++ [])) := by
  have hsorted : sortedItems (.ofList [(1, .text c), (2, .text m)]) = [(1, .text c), (2, .text m)] := by
    simp [sortedItems, OrderedDict.ofList, OrderedDict.set, OrderedDict.empty, List.mergeSort,
      List.MergeSort.Internal.splitInTwo]
  rw [encodePair, encodeMessage, hsorted]
  rfl

def candidateItems (pair : Bytes) : List (ℤ × Value) :=
  [(1, .text token), (2, .text requestId), (3, .text fingerprint), (4, .bytes pair), (5, .int 4), (7, .int 1)]

theorem sortedItems_candidate (pair : Bytes) :
    sortedItems ((cameraFields token requestId fingerprint 4).set 4 (.bytes pair)) =
      candidateItems token requestId fingerprint pair := by
  simp [sortedItems, cameraFields, candidateItems, OrderedDict.ofList, OrderedDict.set, OrderedDict.empty,
    List.mergeSort, List.MergeSort.Internal.splitInTwo]

theorem not_starts_pair (rest : Bytes) : ¬ Starts (encodeStringField 1 c ++ rest) := by
  have htag : encodeVarint ((1 : ℤ)*8 + 2) = [0x0a] := encodeVarint_small (n := 10) (by omega)
  have hhead : (encodeStringField 1 c ++ rest).head? = some 0x0a := by
    rw [encodeStringField, lengthDelimited, htag]
    rfl
  intro hstarts
  have hother := Starts.head hstarts
  rw [hhead] at hother
  exact absurd hother (by decide)

variable {token requestId fingerprint c m}

theorem entries_decode {items : List (ℤ × Value)} {data : Bytes} (hdata : encodeItems items = .ok data)
    (hitems : ∀ e ∈ items, 1 ≤ e.1 ∧ Encodable e.2) (hkeys : ((wireItems items).map Prod.fst).Nodup) :
    (decodeMessage data).entries = wireItems items := by
  obtain ⟨data', hdata', hdecode⟩ := decodeFields_encodeItems _ hitems
  obtain rfl : data' = data := Except.ok.inj (hdata'.symm.trans hdata)
  rw [decodeMessage, hdecode]
  exact OrderedDict.entries_ofList _ hkeys

theorem decode_candidate {pair data : Bytes}
    (hdata : encodeItems (candidateItems token requestId fingerprint pair) = .ok data) :
    (decodeMessage data).entries = [(1, .text token), (2, .text requestId), (3, .text fingerprint),
      (4, textOrBytes pair), (5, .int 4), (7, .int 1)] := by
  have hkeys : ([1, 2, 3, 4, 5, 7] : List ℤ).Nodup := by decide
  exact entries_decode hdata (by simp [candidateItems, Encodable]) hkeys

theorem field4_candidate {pair data : Bytes}
    (hdata : encodeItems (candidateItems token requestId fingerprint pair) = .ok data) :
    (decodeCameraWebrtcMessage data).field4Fields = decodeMessage pair := by
  let rest := encodeUintField 5 4 ++ (encodeUintField 7 1 ++ [])
  obtain rfl : lengthDelimited 1 (utf8Encode token) ++ (lengthDelimited 2 (utf8Encode requestId) ++
      (lengthDelimited 3 (utf8Encode fingerprint) ++ (lengthDelimited 4 pair ++ rest))) = data := Except.ok.inj hdata
  have hfield (k : ℕ) (payload after : Bytes) : iterFields (lengthDelimited k payload ++ after) =
      ⟨k, 2, .bytes payload⟩ :: iterFields after := iterFields_of_rawField (rawField_lengthDelimited k payload after)
  have h1 := hfield 1 (utf8Encode token)
  have h2 := hfield 2 (utf8Encode requestId)
  have h3 := hfield 3 (utf8Encode fingerprint)
  have h4 := hfield 4 pair rest
  simp only [Nat.cast_one, Nat.cast_ofNat] at h1 h2 h3 h4
  simp only [decodeCameraWebrtcMessage, h1, h2, h3, h4]
  rfl

theorem decode_pair : (decodeMessage (encodeStringField 1 c ++ (encodeStringField 2 m ++ []))).entries =
    [(1, .text c), (2, .text m)] := by
  have hkeys : ([1, 2] : List ℤ).Nodup := by decide
  exact @entries_decode [(1, .text c), (2, .text m)] _ rfl (by simp [Encodable]) hkeys

theorem scan_pair (hc : PyText.startswith c "candidate:" = true ∨ PyText.startswith c "a=candidate:" = true) :
    scanCandidate 9 (textOrBytes (encodeStringField 1 c ++ (encodeStringField 2 m ++ []))) = stripAttribute c := by
  obtain ⟨hfound, hne⟩ := normalizeCandidate_of_startswith hc
  have hscan : scanCandidate 8 (.text c) = stripAttribute c := by
    rw [scanCandidate, hfound]
    exact if_pos hne
  rw [scanCandidate_succ 8 (raw_textOrBytes _) (not_starts_pair c _), decode_pair]
  simp only [List.map_cons, hscan, firstFound, List.find?_cons, decide_eq_true hne, Option.getD_some]

end Message

/-- A candidate that is sent in a message is what the message holds in field 4, and what the search
comes to, whatever else the message says. -/
theorem candidate_message_round_trip (token requestId fingerprint c m : String) (hrequest : requestId ≠ "")
    (htoken : PyText.contains "candidate:" token = false) (hid : PyText.contains "candidate:" requestId = false)
    (hfingerprint : PyText.contains "candidate:" fingerprint = false)
    (hc : PyText.startswith c "candidate:" = true ∨ PyText.startswith c "a=candidate:" = true) :
    ∃ data, encodeCameraWebrtcMessage token requestId fingerprint webrtcCandidate "" c m = .ok data ∧
      (decodeCameraWebrtcMessage data).field4Fields.entries = [(1, .text c), (2, .text m)] ∧
      findWebrtcCandidate (decodeCameraWebrtcMessage data) = stripAttribute c := by
  have hne : c ≠ "" := by
    rintro rfl
    exact absurd hc (by decide)
  have hfree {s : String} (hs : PyText.contains "candidate:" s = false) : scanCandidate 9 (.text s) = "" := by
    have hnot : ¬ candidateText <:+: s.toList := by
      intro hin
      rw [(PyText.contains_iff _ _).mpr hin] at hs
      cases hs
    exact scanCandidate_free 9 rfl (free_utf8Encode hnot)
  let pair := encodeStringField 1 c ++ (encodeStringField 2 m ++ [])
  obtain ⟨data, hdata⟩ : ∃ data, encodeItems (candidateItems token requestId fingerprint pair) = .ok data := ⟨_, rfl⟩
  have hmessage : encodeMessage ((cameraFields token requestId fingerprint 4).set 4 (.bytes pair)) = .ok data := by
    rw [encodeMessage, sortedItems_candidate, hdata]
  refine ⟨data, ?_, ?_, ?_⟩
  · have hpair : encodePair c m = .ok pair := encodePair_eq c m
    simp [encodeCameraWebrtcMessage, webrtcCandidate, hrequest, hne, hpair, Except.map, Except.mapError, hmessage,
      Bind.bind, Except.bind]
  · rw [field4_candidate hdata, decode_pair]
  · have hentries := decode_candidate hdata
    have hstrip := (normalizeCandidate_of_startswith hc).2
    have hraw : (decodeCameraWebrtcMessage data).raw = decodeMessage data := rfl
    rw [findWebrtcCandidate, hraw, hentries]
    simp only [List.map_cons, hfree htoken, hfree hid, hfree hfingerprint, scan_pair hc, pair, firstFound]
    simp [hstrip]

/-- A candidate in the form of an SDP attribute, in a message whose token is itself a message. -/
theorem attribute_candidate_round_trip : ∃ data,
    encodeCameraWebrtcMessage "\n\x03abc" "request" "AA:BB" webrtcCandidate "" "a=candidate:1 1 udp" "0" = .ok data ∧
      (decodeCameraWebrtcMessage data).field4Fields.entries = [(1, .text "a=candidate:1 1 udp"), (2, .text "0")] ∧
      findWebrtcCandidate (decodeCameraWebrtcMessage data) = stripAttribute "a=candidate:1 1 udp" :=
  candidate_message_round_trip "\n\x03abc" "request" "AA:BB" "a=candidate:1 1 udp" "0" (by decide) (by decide)
    (by decide) (by decide) (Or.inr (by decide))

end PiBuddyCam.Proto
