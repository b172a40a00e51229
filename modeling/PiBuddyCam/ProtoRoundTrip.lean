import PiBuddyCam.ProtoModel

/-! Decoding inverts encoding, up to what the wire format forgets: booleans are
integers, floats are their four bytes, and bytes that are text are text. -/
namespace PiBuddyCam.Proto

theorem encodeVarint_eq (n : ℕ) : encodeVarint n = Base128.encode n := by
  induction n using Nat.strong_induction_on with
  | _ n ih =>
    rw [encodeVarint, Base128.encode]
    by_cases hn : 127 < n
    · rw [if_pos (by exact_mod_cast hn), if_pos hn]
      have hdiv : (n : ℤ)/128 = ((n/128 : ℕ) : ℤ) := by norm_cast
      have hmod : ((n : ℤ)%128).toNat = n%128 := by norm_cast
      rw [hdiv, hmod, ih (n/128) (by omega)]
    · rw [if_neg (by exact_mod_cast hn), if_neg hn]
      have hmod : ((n : ℤ)%128).toNat = n := by omega
      rw [hmod]

theorem decodeVarint_encodeVarint (n : ℕ) (rest : Bytes) :
    decodeVarint (encodeVarint n ++ rest) = (n, rest) := by
  rw [encodeVarint_eq]
  exact Base128.decode_encode n rest

theorem utf8Decode_utf8Encode (s : String) : utf8Decode (utf8Encode s) = some s := by
  unfold utf8Decode utf8Encode String.fromUTF8?
  rw [Array.toArray_toList, dif_pos s.isValidUTF8]
  rfl

theorem utf8Encode_of_utf8Decode {raw : Bytes} {text : String} (h : utf8Decode raw = some text) :
    utf8Encode text = raw := by
  unfold utf8Decode String.fromUTF8? at h
  split_ifs at h with hvalid
  rw [← Option.some.inj h]
  rfl

theorem packFloat_length (x : Float) (b : Bytes) (h : packFloat x = .ok b) : b.length = 4 := by
  simp only [packFloat] at h
  split_ifs at h
  · rw [← Except.ok.inj h]
    rfl

theorem tag_split (f w : ℕ) (hw : w < 8) : (f*8 + w) >>> 3 = f ∧ (f*8 + w) &&& 0x07 = w := by
  constructor
  · rw [Nat.shiftRight_eq_div_pow]
    omega
  · rw [show (0x07 : ℕ) = 2^3-1 from rfl, Nat.and_two_pow_sub_one_eq_mod]
    omega

/-- Reading a field whose tag was written for `f` and `w` reads its payload by `w`
and assigns it to `f`. -/
theorem readField_tag (f w : ℕ) (hw : w < 8) (data : Bytes) :
    readField (encodeVarint ((f : ℤ)*8 + w) ++ data) =
      (readPayload w data).map (fun payload => (((f : ℤ), payload.1), payload.2)) := by
  have hcast : (f : ℤ)*8 + w = ((f*8 + w : ℕ) : ℤ) := by push_cast; ring
  have hne : encodeVarint ((f : ℤ)*8 + w) ++ data ≠ [] := by
    rw [hcast, encodeVarint_eq]
    exact fun h => Base128.encode_ne_nil _ (List.append_eq_nil_iff.mp h).1
  rw [readField, if_neg hne, hcast, decodeVarint_encodeVarint]
  dsimp only
  rw [(tag_split f w hw).1, (tag_split f w hw).2]

theorem readPayload_length (payload rest : Bytes) :
    readPayload 2 (encodeVarint payload.length ++ payload ++ rest) = some (textOrBytes payload, rest) := by
  simp only [readPayload, List.append_assoc, decodeVarint_encodeVarint, List.take_left, List.drop_left]

/-- What a value is after a round trip; `none` when it is not sent at all. -/
def wireValue : Value → Option Value
  | .none => none
  | .int n => some (.int n)
  | .bool b => some (.int b.toInt)
  | .float32 x => (packFloat x).toOption.map .bytes
  | .text s => some (.text s)
  | .bytes b => some (textOrBytes b)

/-- Values that the wire format can carry: integers from zero up, and floats that
fit single precision. -/
def Encodable : Value → Prop
  | .int n => 0 ≤ n
  | .float32 x => ∃ b, packFloat x = .ok b
  | _ => True

theorem readField_uint (k n : ℕ) (rest : Bytes) :
    readField (encodeUintField k n ++ rest) = some (((k : ℤ), .int n), rest) := by
  have h := readField_tag k 0 (by omega) (encodeVarint n ++ rest)
  simp only [readPayload, decodeVarint_encodeVarint, Option.map_some, Nat.cast_zero, add_zero] at h
  rw [encodeUintField, List.append_assoc, h]

theorem readField_lengthDelimited (k : ℕ) (payload rest : Bytes) :
    readField (lengthDelimited k payload ++ rest) = some (((k : ℤ), textOrBytes payload), rest) := by
  have h := readField_tag k 2 (by omega) (encodeVarint payload.length ++ payload ++ rest)
  rw [readPayload_length, Option.map_some] at h
  simp only [lengthDelimited, List.append_assoc] at h ⊢
  exact h

theorem textOrBytes_utf8Encode (s : String) : textOrBytes (utf8Encode s) = .text s := by
  rw [textOrBytes, utf8Decode_utf8Encode]

/-- One field: `none` is written as nothing, and every other value is read back as
its wire value, leaving what followed it. -/
theorem readField_encodeField (f : ℤ) (hf : 1 ≤ f) (v : Value) (hv : Encodable v) :
    ∃ field, encodeField f v = .ok field ∧
      match wireValue v with
      | none => field = []
      | some v' => ∀ rest, readField (field ++ rest) = some ((f, v'), rest) := by
  obtain ⟨k, rfl⟩ : ∃ k : ℕ, f = k := ⟨f.toNat, by omega⟩
  cases v with
  | none => exact ⟨[], rfl, rfl⟩
  | int n =>
    obtain ⟨m, rfl⟩ : ∃ m : ℕ, n = m := ⟨n.toNat, (Int.toNat_of_nonneg hv).symm⟩
    exact ⟨_, rfl, readField_uint k m⟩
  | bool b =>
    have hb : b.toInt = ((b.toNat : ℕ) : ℤ) := by cases b <;> rfl
    refine ⟨_, rfl, ?_⟩
    simp only [wireValue, hb]
    exact readField_uint k b.toNat
  | float32 x =>
    obtain ⟨b, hb⟩ := hv
    have hlen4 := packFloat_length x b hb
    refine ⟨encodeVarint ((k : ℤ)*8 + 5) ++ b, by simp only [encodeField, encodeFloatField, hb]; rfl, ?_⟩
    simp only [wireValue, hb, Except.toOption, Option.map_some]
    intro rest
    have h := readField_tag k 5 (by omega) (b ++ rest)
    rw [List.append_assoc]
    simpa only [readPayload, ← hlen4, List.take_left, List.drop_left, Option.map_some, Nat.cast_ofNat] using h
  | text s =>
    refine ⟨_, rfl, ?_⟩
    intro rest
    rw [encodeStringField, readField_lengthDelimited, textOrBytes_utf8Encode]
  | bytes b => exact ⟨_, rfl, readField_lengthDelimited k b⟩

theorem decodeFields_nil (d : OrderedDict ℤ Value) : decodeFields d [] = d := by
  rw [decodeFields]
  rfl

theorem decodeFields_of_readField (d : OrderedDict ℤ Value) (data rest : Bytes) (e : ℤ × Value)
    (h : readField data = some (e, rest)) : decodeFields d data = decodeFields (d.set e.1 e.2) rest := by
  rw [decodeFields]
  split
  · next hn => rw [hn] at h; exact absurd h (by simp)
  · next e' rest' hs =>
    rw [hs] at h
    obtain ⟨rfl, rfl⟩ := Prod.mk.inj (Option.some.inj h)
    rfl

def wireItems (items : List (ℤ × Value)) : List (ℤ × Value) :=
  items.filterMap (fun e => (wireValue e.2).map (fun v => (e.1, v)))

theorem wireItems_cons_none (e : ℤ × Value) (items : List (ℤ × Value)) (h : wireValue e.2 = none) :
    wireItems (e :: items) = wireItems items := by
  simp only [wireItems, List.filterMap_cons, h, Option.map_none]

theorem wireItems_cons_some (e : ℤ × Value) (items : List (ℤ × Value)) (v : Value)
    (h : wireValue e.2 = some v) : wireItems (e :: items) = (e.1, v) :: wireItems items := by
  simp only [wireItems, List.filterMap_cons, h, Option.map_some]

variable (items : List (ℤ × Value))

/-- The loop of the decoder over the bytes of the loop of the encoder, by induction
over the fields that are still to be written. -/
theorem decodeFields_encodeItems
    (hi : ∀ e ∈ items, 1 ≤ e.1 ∧ Encodable e.2) :
    ∃ data, encodeItems items = .ok data ∧ ∀ d, decodeFields d data =
      (wireItems items).foldl (fun d e => d.set e.1 e.2) d := by
  induction items with
  | nil => exact ⟨[], rfl, fun d => decodeFields_nil d⟩
  | cons e items ih =>
    obtain ⟨hf, hv⟩ := hi e List.mem_cons_self
    obtain ⟨field, hfield, hread⟩ := readField_encodeField e.1 hf e.2 hv
    obtain ⟨data, hdata, hdec⟩ := ih (fun e' he' => hi e' (List.mem_cons_of_mem _ he'))
    refine ⟨field ++ data, by simp only [encodeItems, hfield, hdata]; rfl, ?_⟩
    intro d
    cases hw : wireValue e.2 with
    | none =>
      simp only [hw] at hread
      rw [hread, List.nil_append, hdec, wireItems_cons_none e items hw]
    | some v =>
      simp only [hw] at hread
      rw [decodeFields_of_readField d _ data (e.1, v) (hread data), hdec, wireItems_cons_some e items v hw,
        List.foldl_cons]

theorem wireItems_keys_sublist :
    ((wireItems items).map Prod.fst).Sublist (items.map Prod.fst) := by
  induction items with
  | nil => exact List.Sublist.refl _
  | cons e items ih =>
    cases hw : wireValue e.2 with
    | none =>
      rw [wireItems_cons_none e items hw]
      exact ih.cons e.1
    | some v =>
      rw [wireItems_cons_some e items v hw]
      exact ih.cons_cons e.1

theorem find_wireItems (hn : (items.map Prod.fst).Nodup) (k : ℤ) :
    ((wireItems items).find? (fun e => e.1 = k)).map Prod.snd =
      ((items.find? (fun e => e.1 = k)).map Prod.snd).bind wireValue := by
  induction items with
  | nil => rfl
  | cons e items ih =>
    have hn' := List.nodup_cons.mp (by simpa only [List.map_cons] using hn)
    have ih := ih hn'.2
    by_cases he : e.1 = k
    · have hnone : items.find? (fun e => e.1 = k) = none := by
        rw [List.find?_eq_none]
        intro f hf hfk
        exact hn'.1 (List.mem_map.mpr ⟨f, hf, (of_decide_eq_true hfk).trans he.symm⟩)
      rw [hnone] at ih
      cases hw : wireValue e.2 with
      | none =>
        rw [wireItems_cons_none e items hw, ih]
        simp [he, hw]
      | some v =>
        rw [wireItems_cons_some e items v hw]
        simp [he, hw]
    · cases hw : wireValue e.2 with
      | none =>
        rw [wireItems_cons_none e items hw, ih]
        simp [he]
      | some v =>
        rw [wireItems_cons_some e items v hw, List.find?_cons_of_neg (by simpa using he), ih]
        simp [he]

/-- Encoding a message succeeds and decoding it gives every field its wire value,
and no field that was not there. -/
theorem decode_encode_message (m : OrderedDict ℤ Value) (hk : ∀ k ∈ m.keys, 1 ≤ k)
    (hv : ∀ k v, m.get? k = some v → Encodable v) :
    ∃ data, encodeMessage m = .ok data ∧
      ∀ k, (decodeMessage data).get? k = (m.get? k).bind wireValue := by
  have hperm : (sortedItems m).Perm m.entries := List.mergeSort_perm _ _
  have hnodup : ((sortedItems m).map Prod.fst).Nodup := (hperm.map Prod.fst).nodup_iff.mpr m.nodup
  have hitems : ∀ e ∈ sortedItems m, 1 ≤ e.1 ∧ Encodable e.2 := by
    intro e he
    have hmem := hperm.mem_iff.mp he
    exact ⟨hk e.1 (List.mem_map_of_mem hmem), hv e.1 e.2 ((m.get?_eq_some_iff _ _).mpr hmem)⟩
  obtain ⟨data, hdata, hdec⟩ := decodeFields_encodeItems (sortedItems m) hitems
  refine ⟨data, hdata, fun k => ?_⟩
  have hsorted : ((sortedItems m).find? (fun e => e.1 = k)).map Prod.snd = m.get? k := by
    apply Option.ext
    intro v
    rw [m.get?_eq_some_iff, ← hperm.mem_iff]
    exact OrderedDict.get?_eq_some_iff ⟨sortedItems m, hnodup⟩ k v
  rw [decodeMessage, hdec, OrderedDict.get?_foldl_set _ (hnodup.sublist (wireItems_keys_sublist _)),
    OrderedDict.get?_empty, Option.or_none, find_wireItems _ hnodup, hsorted]

/-- One entry of each kind: an integer of two bytes, a flag, a text, an entry that is
dropped, a byte string that is no UTF-8 text and one that is. -/
def sampleMessage : OrderedDict ℤ Value :=
  ⟨[(3, .int 300), (1, .bool true), (7, .text "mid"), (2, .none), (9, .bytes [0xff]), (4, .bytes [0x61])],
    by decide⟩

theorem sampleMessage_round_trip :
    ∃ data, encodeMessage sampleMessage = .ok data ∧
      ∀ k, (decodeMessage data).get? k = (sampleMessage.get? k).bind wireValue := by
  apply decode_encode_message
  · decide
  · intro k v hget
    have hmem := (sampleMessage.get?_eq_some_iff k v).mp hget
    simp only [sampleMessage, List.mem_cons, Prod.mk.injEq, List.not_mem_nil, or_false] at hmem
    rcases hmem with ⟨_, rfl⟩ | ⟨_, rfl⟩ | ⟨_, rfl⟩ | ⟨_, rfl⟩ | ⟨_, rfl⟩ | ⟨_, rfl⟩
    · exact (by decide : (0:ℤ) ≤ 300)
    all_goals trivial

end PiBuddyCam.Proto
