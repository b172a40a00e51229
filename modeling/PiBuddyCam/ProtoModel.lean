import Mathlib.Data.List.Sort
import PiBuddyCam.OrderedDict
import PiBuddyCam.Base128

/-! The protobuf subset of `app/proto.py`. Byte strings are lists and an offset into
the data is the list that is left of it, so that `data[offset:offset + n]` is `take`
and `offset += n` is `drop`, both of which stop at the end as the slices do. -/
namespace PiBuddyCam.Proto

abbrev Bytes := List UInt8

/-- The values that `encode_message` dispatches on. A `str` is a Lean string: every
text that UTF-8 can encode and no other. -/
inductive Value where
  | none
  | int (n : ℤ)
  | bool (b : Bool)
  | float32 (x : Float)
  | text (s : String)
  | bytes (b : Bytes)

inductive ProtoError where
  /-- `OverflowError` of `struct.pack`: the value does not fit 32 bits. -/
  | floatTooLarge
  deriving DecidableEq

def encodeVarint (value : ℤ) : Bytes :=
  if 127 < value then UInt8.ofNat ((value % 128).toNat ||| 0x80) :: encodeVarint (value / 128)
  else [UInt8.ofNat (value % 128).toNat]
termination_by value.toNat
decreasing_by omega

def decodeVarint (data : Bytes) : ℕ × Bytes := Base128.decode data

def utf8Encode (s : String) : Bytes := s.toByteArray.data.toList

def utf8Decode (raw : Bytes) : Option String := String.fromUTF8? ⟨raw.toArray⟩

def littleEndian32 (w : UInt32) : Bytes :=
  [w.toUInt8, (w >>> 8).toUInt8, (w >>> 16).toUInt8, (w >>> 24).toUInt8]

/-- `struct.pack('<f', value)`: convert to single precision, and refuse a finite
value whose single-precision rounding is infinite. -/
def packFloat (value : Float) : Except ProtoError Bytes :=
  let y := value.toFloat32
  if y.isInf && !value.isInf then throw .floatTooLarge else pure (littleEndian32 y.toBits)

def lengthDelimited (fieldNumber : ℤ) (payload : Bytes) : Bytes :=
  encodeVarint (fieldNumber*8 + 2) ++ encodeVarint payload.length ++ payload

def encodeStringField (fieldNumber : ℤ) (value : String) : Bytes :=
  lengthDelimited fieldNumber (utf8Encode value)

def encodeUintField (fieldNumber value : ℤ) : Bytes :=
  encodeVarint (fieldNumber*8) ++ encodeVarint value

def encodeFloatField (fieldNumber : ℤ) (value : Float) : Except ProtoError Bytes := do
  let packed ← packFloat value
  pure (encodeVarint (fieldNumber*8 + 5) ++ packed)

def encodeField (fieldNumber : ℤ) : Value → Except ProtoError Bytes
  | .none => pure []
  | .int n => pure (encodeUintField fieldNumber n)
  -- `bool` is a subclass of `int`, so it takes the integer branch
  | .bool b => pure (encodeUintField fieldNumber b.toInt)
  | .float32 x => encodeFloatField fieldNumber x
  | .text s => pure (encodeStringField fieldNumber s)
  | .bytes b => pure (lengthDelimited fieldNumber b)

def sortedItems (fields : OrderedDict ℤ Value) : List (ℤ × Value) :=
  fields.entries.mergeSort (fun a b => a.1 ≤ b.1)

def encodeItems : List (ℤ × Value) → Except ProtoError Bytes
  | [] => pure []
  | e :: items => do
    let field ← encodeField e.1 e.2
    let rest ← encodeItems items
    pure (field ++ rest)

def encodeMessage (fields : OrderedDict ℤ Value) : Except ProtoError Bytes :=
  encodeItems (sortedItems fields)

def textOrBytes (raw : Bytes) : Value :=
  match utf8Decode raw with
  | some s => .text s
  | .none => .bytes raw

/-- The payload of one field in `decode_message`, by wire type, with the bytes that
are left. `none` is the `break` at an unknown wire type. -/
def readPayload (wireType : ℕ) (data : Bytes) : Option (Value × Bytes) :=
  match wireType with
  | 0 => some (.int (decodeVarint data).1, (decodeVarint data).2)
  | 2 =>
    let length := (decodeVarint data).1
    let rest := (decodeVarint data).2
    some (textOrBytes (rest.take length), rest.drop length)
  | 5 => some (.bytes (data.take 4), data.drop 4)
  | 1 => some (.bytes (data.take 8), data.drop 8)
  | _ => none

/-- One iteration of the loop of `decode_message`: the assignment it makes and the
bytes that are left. `none` ends the loop. -/
def readField (data : Bytes) : Option ((ℤ × Value) × Bytes) :=
  if data = [] then none
  else
    let tag := (decodeVarint data).1
    (readPayload (tag &&& 0x07) (decodeVarint data).2).map
      (fun payload => ((((tag >>> 3 : ℕ) : ℤ), payload.1), payload.2))

theorem readPayload_length_le (wireType : ℕ) (data : Bytes) (v : Value) (rest : Bytes)
    (h : readPayload wireType data = some (v, rest)) : rest.length ≤ data.length := by
  have hvarint : (decodeVarint data).2.length ≤ data.length := Base128.decodeFrom_length_le 0 0 data
  have hdrop (n : ℕ) (l : Bytes) : (l.drop n).length ≤ l.length := by
    rw [List.length_drop]
    exact Nat.sub_le _ _
  unfold readPayload at h
  split at h
  · rw [← (Prod.mk.inj (Option.some.inj h)).2]
    exact hvarint
  · rw [← (Prod.mk.inj (Option.some.inj h)).2]
    exact (hdrop _ _).trans hvarint
  · rw [← (Prod.mk.inj (Option.some.inj h)).2]
    exact hdrop _ _
  · rw [← (Prod.mk.inj (Option.some.inj h)).2]
    exact hdrop _ _
  · exact absurd h (by simp)

theorem readField_length_lt (data : Bytes) (e : ℤ × Value) (rest : Bytes)
    (h : readField data = some (e, rest)) : rest.length < data.length := by
  rw [readField] at h
  split at h
  · rename_i hd
    exact absurd h (by simp)
  · rename_i hd
    obtain ⟨payload, hp, he⟩ := Option.map_eq_some_iff.mp h
    have hle := readPayload_length_le _ _ payload.1 payload.2 hp
    have hlt := Base128.decode_length_lt data hd
    rw [← (Prod.mk.inj he).2]
    exact hle.trans_lt hlt

def decodeFields (fields : OrderedDict ℤ Value) (data : Bytes) : OrderedDict ℤ Value :=
  match h : readField data with
  | none => fields
  | some (e, rest) =>
    have := readField_length_lt data e rest h
    decodeFields (fields.set e.1 e.2) rest
termination_by data.length

def decodeMessage (data : Bytes) : OrderedDict ℤ Value := decodeFields OrderedDict.empty data

end PiBuddyCam.Proto
