import Mathlib.Data.List.Basic
import Mathlib.Tactic.Ring

/-! Little-endian numbers and RIFF chunks over lists of bytes: four bytes of name, four
bytes of size, the payload, and a pad byte after a payload of odd length. -/
namespace Riff

def littleEndian : ℕ → ℕ → List UInt8
  | 0, _ => []
  | width+1, n => UInt8.ofNat n :: littleEndian width (n/256)

def number : List UInt8 → ℕ
  | [] => 0
  | b :: rest => b.toNat + 256*number rest

def numberAt (data : List UInt8) (pos width : ℕ) : ℕ := number ((data.drop pos).take width)

theorem length_littleEndian (width n : ℕ) : (littleEndian width n).length = width := by
  induction width generalizing n with
  | zero => rfl
  | succ width ih => rw [littleEndian, List.length_cons, ih]

theorem number_littleEndian (width n : ℕ) (h : n < 256^width) : number (littleEndian width n) = n := by
  induction width generalizing n with
  | zero =>
    have hzero : n = 0 := by simpa using h
    rw [hzero]
    rfl
  | succ width ih =>
    have hdiv : n/256 < 256^width := Nat.div_lt_of_lt_mul (by rwa [pow_succ'] at h)
    rw [littleEndian, number, ih _ hdiv, UInt8.toNat_ofNat']
    omega

theorem drop_append_of_length {α : Type} {a : List α} (b : List α) {n : ℕ} (h : a.length = n) : (a ++ b).drop n = b := by
  rw [← h, List.drop_left]

theorem take_append_of_length {α : Type} {a : List α} (b : List α) {n : ℕ} (h : a.length = n) : (a ++ b).take n = a := by
  rw [← h, List.take_left]

theorem numberAt_append {before : List UInt8} {pos : ℕ} (hpos : before.length = pos) (width n : ℕ)
    (h : n < 256^width) (after : List UInt8) :
    numberAt (before ++ (littleEndian width n ++ after)) pos width = n := by
  rw [numberAt, drop_append_of_length _ hpos, take_append_of_length _ (length_littleEndian width n),
    number_littleEndian width n h]

structure Chunk where
  id : List UInt8
  payload : List UInt8

def padding (n : ℕ) : List UInt8 := if n%2 = 1 then [0] else []

theorem length_padding (n : ℕ) : (padding n).length = n%2 := by
  unfold padding
  split_ifs with h
  · rw [h]
    rfl
  · have hzero : n%2 = 0 := by omega
    rw [hzero]
    rfl

def Chunk.bytes (c : Chunk) : List UInt8 :=
  c.id ++ (littleEndian 4 c.payload.length ++ (c.payload ++ padding c.payload.length))

structure Chunk.Fits (c : Chunk) : Prop where
  id : c.id.length = 4
  size : c.payload.length < 2^32

variable {c : Chunk}

theorem Chunk.length_bytes (hid : c.id.length = 4) :
    c.bytes.length = 8 + c.payload.length + c.payload.length%2 := by
  simp only [Chunk.bytes, List.length_append, hid, length_littleEndian, length_padding]
  omega

theorem Chunk.bytes_of_even (heven : c.payload.length%2 = 0) :
    c.bytes = c.id ++ (littleEndian 4 c.payload.length ++ c.payload) := by
  rw [Chunk.bytes, padding, if_neg (by omega), List.append_nil]

def readChunk (data : List UInt8) : Option (Chunk × List UInt8) :=
  let size := numberAt data 4 4
  if 8 + size + size%2 ≤ data.length then
    some (⟨data.take 4, (data.drop 8).take size⟩, data.drop (8 + size + size%2))
  else none

theorem Chunk.bytes_append (c : Chunk) (rest : List UInt8) : c.bytes ++ rest =
    c.id ++ (littleEndian 4 c.payload.length ++ (c.payload ++ (padding c.payload.length ++ rest))) := by
  simp only [Chunk.bytes, List.append_assoc]

theorem numberAt_size (h : c.Fits) (rest : List UInt8) :
    numberAt (c.bytes ++ rest) 4 4 = c.payload.length := by
  rw [c.bytes_append]
  exact numberAt_append h.id 4 _ (lt_of_lt_of_eq h.size (by norm_num)) _

theorem readChunk_append (h : c.Fits) (rest : List UInt8) :
    readChunk (c.bytes ++ rest) = some (c, rest) := by
  have hlength := c.length_bytes h.id
  have hid : (c.bytes ++ rest).take 4 = c.id := by
    rw [c.bytes_append]
    exact take_append_of_length _ h.id
  have hpayload : ((c.bytes ++ rest).drop 8).take c.payload.length = c.payload := by
    have hhead : (c.id ++ littleEndian 4 c.payload.length).length = 8 := by
      rw [List.length_append, h.id, length_littleEndian]
    rw [c.bytes_append, ← List.append_assoc, drop_append_of_length _ hhead, List.take_left]
  have hfit : 8 + c.payload.length + c.payload.length%2 ≤ (c.bytes ++ rest).length := by
    rw [List.length_append, hlength]
    exact Nat.le_add_right _ _
  have hrest : (c.bytes ++ rest).drop (8 + c.payload.length + c.payload.length%2) = rest :=
    drop_append_of_length _ hlength
  simp only [readChunk, numberAt_size h, hid, hpayload, hrest, if_pos hfit]

theorem length_lt_of_readChunk {data rest : List UInt8} (h : readChunk data = some (c, rest)) :
    rest.length < data.length := by
  simp only [readChunk] at h
  split_ifs at h with hfit
  obtain ⟨-, rfl⟩ := Prod.mk.inj (Option.some.inj h)
  rw [List.length_drop]
  omega

def readChunks (data : List UInt8) : Option (List Chunk) :=
  if data = [] then some []
  else
    match h : readChunk data with
    | none => none
    | some (c, rest) =>
      have := length_lt_of_readChunk h
      (readChunks rest).map (c :: ·)
termination_by data.length

theorem readChunks_append (h : c.Fits) (rest : List UInt8) :
    readChunks (c.bytes ++ rest) = (readChunks rest).map (c :: ·) := by
  have hne : c.bytes ++ rest ≠ [] := by
    intro hnil
    have hlength := congrArg List.length hnil
    rw [List.length_append, c.length_bytes h.id, List.length_nil] at hlength
    omega
  rw [readChunks, if_neg hne]
  split
  · next hread => rw [readChunk_append h] at hread; cases hread
  · next hread =>
    rw [readChunk_append h] at hread
    obtain ⟨rfl, rfl⟩ := Prod.mk.inj (Option.some.inj hread)
    rfl

theorem readChunks_single (h : c.Fits) : readChunks c.bytes = some [c] := by
  have hread := readChunks_append h []
  rw [List.append_nil] at hread
  rw [hread, readChunks]
  rfl

theorem readChunks_pair {c d : Chunk} (hc : c.Fits) (hd : d.Fits) : readChunks (c.bytes ++ d.bytes) = some [c, d] := by
  rw [readChunks_append hc, readChunks_single hd]
  rfl

theorem readChunks_flatMap (cs : List Chunk) (h : ∀ c ∈ cs, c.Fits) :
    readChunks (cs.flatMap Chunk.bytes) = some cs := by
  induction cs with
  | nil =>
    rw [List.flatMap_nil, readChunks]
    rfl
  | cons c cs ih =>
    rw [List.flatMap_cons, readChunks_append (h c List.mem_cons_self), ih fun c' hc' => h c' (List.mem_cons_of_mem c hc')]
    rfl

end Riff
