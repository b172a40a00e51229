import PiBuddyCam.AviModel
import Mathlib.Tactic.Linarith

/-! What `_build_avi_bytes` returns, written as nested chunks, and when it returns. -/
namespace PiBuddyCam.Timelapse

open Riff

section Pack

theorem pack_eq_ok_iff {items : List Item} {out : Bytes} :
    pack items = .ok out ↔ (∀ item ∈ items, item.Fits) ∧ items.flatMap Item.bytes = out := by
  unfold pack
  split_ifs with h
  · exact ⟨fun hout => ⟨h, Except.ok.inj hout⟩, fun hout => congrArg Except.ok hout.2⟩
  · exact ⟨fun hout => absurd hout (by simp), fun hout => absurd hout.1 h⟩

theorem fits_natCast (width n : ℕ) : (Item.unsigned width n).Fits ↔ n < 256^width := by
  have hcast : (n : ℤ) < 256^width ↔ n < 256^width := by exact_mod_cast Iff.rfl
  exact ⟨fun h => hcast.mp h.2, fun h => ⟨Int.natCast_nonneg n, hcast.mpr h⟩⟩

theorem pack_size_eq_ok_iff {n : ℕ} {out : Bytes} :
    pack [.unsigned 4 n] = .ok out ↔ n < 2^32 ∧ littleEndian 4 n = out := by
  rw [pack_eq_ok_iff, List.forall_mem_singleton, fits_natCast, List.flatMap_singleton]
  exact Iff.rfl

theorem bind_size_eq_ok_iff {n : ℕ} {f : Bytes → Bytes} {out : Bytes} :
    (pack [.unsigned 4 n] >>= fun size => pure (f size)) = .ok out ↔ n < 2^32 ∧ f (littleEndian 4 n) = out := by
  constructor
  · intro h
    obtain ⟨size, hsize, hout⟩ := Except.exists_of_bind_eq_ok h
    obtain ⟨hlt, rfl⟩ := pack_size_eq_ok_iff.mp hsize
    exact ⟨hlt, Except.ok.inj hout⟩
  · rintro ⟨hlt, rfl⟩
    rw [pack_size_eq_ok_iff.mpr ⟨hlt, rfl⟩]
    rfl

theorem aviChunk_eq_ok_iff {name payload out : Bytes} :
    aviChunk name payload = .ok out ↔ payload.length < 2^32 ∧ (Chunk.mk name payload).bytes = out :=
  bind_size_eq_ok_iff

theorem sized_eq_ok_iff {name body out : Bytes} (heven : body.length%2 = 0) :
    sized name body = .ok out ↔ body.length < 2^32 ∧ (Chunk.mk name body).bytes = out := by
  rw [Chunk.bytes_of_even heven]
  exact bind_size_eq_ok_iff

theorem numberAt_items (before after : List Item) {width pos : ℕ} {n : ℕ} (hn : n < 256^width)
    (hpos : (before.flatMap Item.bytes).length = pos) :
    numberAt ((before ++ .unsigned width n :: after).flatMap Item.bytes) pos width = n := by
  rw [List.flatMap_append, List.flatMap_cons]
  exact numberAt_append hpos width n hn _

end Pack

section Header

variable (quotient : ℤ → ℤ → ℤ) (fps width height : ℤ) (frameCount maxFrame totalBytes : ℕ)

def avihChunk : Chunk :=
  ⟨fourcc 'a' 'v' 'i' 'h', (avihItems (max 1 (quotient 1000000 fps)) (quotient (totalBytes*fps) frameCount)
    frameCount maxFrame width height).flatMap Item.bytes⟩

def strhChunk : Chunk :=
  ⟨fourcc 's' 't' 'r' 'h', (strhItems fps frameCount maxFrame width height).flatMap Item.bytes⟩

def strfChunk : Chunk := ⟨fourcc 's' 't' 'r' 'f', (strfItems width height).flatMap Item.bytes⟩

def strlBody : Bytes := (strhChunk fps width height frameCount maxFrame).bytes ++ (strfChunk width height).bytes

def strlChunk : Chunk :=
  ⟨fourcc 'L' 'I' 'S' 'T', fourcc 's' 't' 'r' 'l' ++ strlBody fps width height frameCount maxFrame⟩

def hdrlBody : Bytes :=
  (avihChunk quotient fps width height frameCount maxFrame totalBytes).bytes ++
    (strlChunk fps width height frameCount maxFrame).bytes

def hdrlChunk : Chunk :=
  ⟨fourcc 'L' 'I' 'S' 'T', fourcc 'h' 'd' 'r' 'l' ++ hdrlBody quotient fps width height frameCount maxFrame totalBytes⟩

theorem length_avih : (avihChunk quotient fps width height frameCount maxFrame totalBytes).payload.length = 56 := by
  simp [avihChunk, avihItems, Item.bytes, length_littleEndian]

theorem length_strh : (strhChunk fps width height frameCount maxFrame).payload.length = 56 := by
  simp [strhChunk, strhItems, Item.bytes, length_littleEndian, fourcc]

theorem length_strf : (strfChunk width height).payload.length = 40 := by
  simp [strfChunk, strfItems, Item.bytes, length_littleEndian, fourcc]

theorem length_strl : (strlChunk fps width height frameCount maxFrame).payload.length = 116 := by
  have hstrh : (strhChunk fps width height frameCount maxFrame).bytes.length = 64 := by
    rw [Chunk.length_bytes rfl, length_strh]
  have hstrf : (strfChunk width height).bytes.length = 48 := by rw [Chunk.length_bytes rfl, length_strf]
  rw [strlChunk, List.length_append, strlBody, List.length_append, hstrh, hstrf]
  rfl

theorem length_hdrl : (hdrlChunk quotient fps width height frameCount maxFrame totalBytes).payload.length = 192 := by
  have havih : (avihChunk quotient fps width height frameCount maxFrame totalBytes).bytes.length = 64 := by
    rw [Chunk.length_bytes rfl, length_avih]
  have hstrl : (strlChunk fps width height frameCount maxFrame).bytes.length = 124 := by
    rw [Chunk.length_bytes rfl, length_strl]
  rw [hdrlChunk, List.length_append, hdrlBody, List.length_append, havih, hstrl]
  rfl

structure HeaderFits : Prop where
  ne_zero : fps ≠ 0
  avih : ∀ item ∈ avihItems (max 1 (quotient 1000000 fps)) (quotient (totalBytes*fps) frameCount)
    frameCount maxFrame width height, item.Fits
  strh : ∀ item ∈ strhItems fps frameCount maxFrame width height, item.Fits
  strf : ∀ item ∈ strfItems width height, item.Fits

variable {quotient fps width height frameCount maxFrame totalBytes}

theorem aviHeader_eq_ok_iff {out : Bytes} :
    aviHeader quotient fps width height frameCount maxFrame totalBytes = .ok out ↔
      HeaderFits quotient fps width height frameCount maxFrame totalBytes ∧
      (hdrlChunk quotient fps width height frameCount maxFrame totalBytes).bytes = out := by
  have hstrl := length_strl fps width height frameCount maxFrame
  have hhdrl := length_hdrl quotient fps width height frameCount maxFrame totalBytes
  have hstrlEven : (strlChunk fps width height frameCount maxFrame).payload.length%2 = 0 := by rw [hstrl]
  have hhdrlEven : (hdrlChunk quotient fps width height frameCount maxFrame totalBytes).payload.length%2 = 0 := by
    rw [hhdrl]
  constructor
  · intro h
    rw [aviHeader] at h
    split_ifs at h with hfps
    · cases h
    obtain ⟨avih, havih, h⟩ := Except.exists_of_bind_eq_ok h
    obtain ⟨strh, hstrh, h⟩ := Except.exists_of_bind_eq_ok h
    obtain ⟨strf, hstrf, h⟩ := Except.exists_of_bind_eq_ok h
    obtain ⟨havihFits, rfl⟩ := pack_eq_ok_iff.mp havih
    obtain ⟨hstrhFits, rfl⟩ := pack_eq_ok_iff.mp hstrh
    obtain ⟨hstrfFits, rfl⟩ := pack_eq_ok_iff.mp hstrf
    obtain ⟨strhBytes, hstrhBytes, h⟩ := Except.exists_of_bind_eq_ok h
    obtain ⟨strfBytes, hstrfBytes, h⟩ := Except.exists_of_bind_eq_ok h
    obtain ⟨-, rfl⟩ := aviChunk_eq_ok_iff.mp hstrhBytes
    obtain ⟨-, rfl⟩ := aviChunk_eq_ok_iff.mp hstrfBytes
    obtain ⟨strlBytes, hstrlBytes, h⟩ := Except.exists_of_bind_eq_ok h
    obtain ⟨-, rfl⟩ := (sized_eq_ok_iff hstrlEven).mp hstrlBytes
    obtain ⟨avihBytes, havihBytes, h⟩ := Except.exists_of_bind_eq_ok h
    obtain ⟨-, rfl⟩ := aviChunk_eq_ok_iff.mp havihBytes
    exact ⟨⟨hfps, havihFits, hstrhFits, hstrfFits⟩, ((sized_eq_ok_iff hhdrlEven).mp h).2⟩
  · rintro ⟨hfits, rfl⟩
    rw [aviHeader, if_neg hfits.ne_zero]
    apply Except.bind_eq_ok (pack_eq_ok_iff.mpr ⟨hfits.avih, rfl⟩)
    apply Except.bind_eq_ok (pack_eq_ok_iff.mpr ⟨hfits.strh, rfl⟩)
    apply Except.bind_eq_ok (pack_eq_ok_iff.mpr ⟨hfits.strf, rfl⟩)
    apply Except.bind_eq_ok (aviChunk_eq_ok_iff.mpr ⟨lt_of_eq_of_lt (length_strh ..) (by norm_num), rfl⟩)
    apply Except.bind_eq_ok (aviChunk_eq_ok_iff.mpr ⟨lt_of_eq_of_lt (length_strf ..) (by norm_num), rfl⟩)
    apply Except.bind_eq_ok ((sized_eq_ok_iff hstrlEven).mpr ⟨lt_of_eq_of_lt hstrl (by norm_num), rfl⟩)
    apply Except.bind_eq_ok (aviChunk_eq_ok_iff.mpr ⟨lt_of_eq_of_lt (length_avih ..) (by norm_num), rfl⟩)
    exact (sized_eq_ok_iff hhdrlEven).mpr ⟨lt_of_eq_of_lt hhdrl (by norm_num), rfl⟩

end Header

section Frames

def frameChunk (jpeg : Bytes) : Chunk := ⟨fourcc '0' '0' 'd' 'c', jpeg⟩

def frameBytes (payloads : List Bytes) : Bytes := (payloads.map frameChunk).flatMap Chunk.bytes

def framesLength : List Bytes → ℕ
  | [] => 0
  | jpeg :: payloads => 8 + jpeg.length + jpeg.length%2 + framesLength payloads

def indexEntry (offset length : ℕ) : Bytes :=
  fourcc '0' '0' 'd' 'c' ++ (littleEndian 4 0x10 ++ (littleEndian 4 offset ++ littleEndian 4 length))

/-- The entries of the index, the first frame being at `offset`. -/
def indexBytes : ℕ → List Bytes → Bytes
  | _, [] => []
  | offset, jpeg :: payloads =>
    indexEntry offset jpeg.length ++ indexBytes (offset + (8 + jpeg.length + jpeg.length%2)) payloads

theorem frameBytes_cons (jpeg : Bytes) (payloads : List Bytes) :
    frameBytes (jpeg :: payloads) = (frameChunk jpeg).bytes ++ frameBytes payloads := rfl

theorem frameBytes_append (before after : List Bytes) :
    frameBytes (before ++ after) = frameBytes before ++ frameBytes after := by
  rw [frameBytes, List.map_append, List.flatMap_append]
  rfl

theorem length_frameChunk (jpeg : Bytes) : (frameChunk jpeg).bytes.length = 8 + jpeg.length + jpeg.length%2 :=
  Chunk.length_bytes rfl

theorem length_frameBytes (payloads : List Bytes) : (frameBytes payloads).length = framesLength payloads := by
  induction payloads with
  | nil => rfl
  | cons jpeg payloads ih => rw [frameBytes_cons, List.length_append, length_frameChunk, ih, framesLength]

theorem framesLength_even (payloads : List Bytes) : framesLength payloads%2 = 0 := by
  induction payloads with
  | nil => rfl
  | cons jpeg payloads ih =>
    rw [framesLength]
    omega

variable {payloads : List Bytes}

theorem length_le_framesLength {jpeg : Bytes} (h : jpeg ∈ payloads) :
    jpeg.length ≤ framesLength payloads := by
  induction payloads with
  | nil => cases h
  | cons first payloads ih =>
    rw [framesLength]
    rcases List.mem_cons.mp h with rfl | h
    · omega
    · have := ih h
      omega

theorem length_indexEntry (offset length : ℕ) : (indexEntry offset length).length = 16 := by
  simp only [indexEntry, List.length_append, length_littleEndian]
  rfl

theorem length_indexBytes (offset : ℕ) (payloads : List Bytes) :
    (indexBytes offset payloads).length = 16*payloads.length := by
  induction payloads generalizing offset with
  | nil => rfl
  | cons jpeg payloads ih =>
    rw [indexBytes, List.length_append, length_indexEntry, ih, List.length_cons]
    omega

theorem indexBytes_append (offset : ℕ) (before after : List Bytes) :
    indexBytes offset (before ++ after) = indexBytes offset before ++ indexBytes (offset + framesLength before) after := by
  induction before generalizing offset with
  | nil => rfl
  | cons jpeg before ih =>
    rw [List.cons_append, indexBytes, ih, indexBytes, framesLength, List.append_assoc]
    congr 3
    omega

theorem pack_entry_eq_ok_iff {offset length : ℕ} {out : Bytes} :
    pack [.unsigned 4 0x10, .unsigned 4 offset, .unsigned 4 length] = .ok out ↔
      (offset < 2^32 ∧ length < 2^32) ∧ littleEndian 4 0x10 ++ (littleEndian 4 offset ++ littleEndian 4 length) = out := by
  have hflag : (Item.unsigned 4 0x10).Fits := by decide
  have hlist : (∀ item ∈ [Item.unsigned 4 0x10, .unsigned 4 offset, .unsigned 4 length], item.Fits) ↔
      offset < 2^32 ∧ length < 2^32 := by
    rw [List.forall_mem_cons, List.forall_mem_cons, List.forall_mem_singleton, fits_natCast, fits_natCast]
    exact and_iff_right hflag
  rw [pack_eq_ok_iff, hlist]
  exact Iff.rfl

theorem appendFrames_eq {movi idx : Bytes} {arrays : Bytes × Bytes}
    (h : appendFrames payloads movi idx = .ok arrays) :
    arrays = (movi ++ frameBytes payloads, idx ++ indexBytes movi.length payloads) := by
  induction payloads generalizing movi idx with
  | nil =>
    rw [← Except.ok.inj h, indexBytes, List.append_nil]
    exact Prod.ext (List.append_nil movi).symm rfl
  | cons jpeg payloads ih =>
    obtain ⟨chunk, hchunk, h⟩ := Except.exists_of_bind_eq_ok h
    obtain ⟨entry, hentry, h⟩ := Except.exists_of_bind_eq_ok h
    obtain ⟨-, rfl⟩ := aviChunk_eq_ok_iff.mp hchunk
    obtain ⟨-, rfl⟩ := pack_entry_eq_ok_iff.mp hentry
    have hoffset : (movi ++ (frameChunk jpeg).bytes).length = movi.length + (8 + jpeg.length + jpeg.length%2) := by
      rw [List.length_append, length_frameChunk]
    rw [ih h, frameBytes_cons, indexBytes, ← hoffset]
    exact Prod.ext (List.append_assoc ..) (List.append_assoc ..)

theorem appendFrames_ok {movi idx : Bytes} (h : movi.length + framesLength payloads < 2^32) :
    ∃ arrays, appendFrames payloads movi idx = .ok arrays := by
  induction payloads generalizing movi idx with
  | nil => exact ⟨_, rfl⟩
  | cons jpeg payloads ih =>
    rw [framesLength] at h
    have hnext : (movi ++ (frameChunk jpeg).bytes).length + framesLength payloads < 2^32 := by
      rw [List.length_append, length_frameChunk]
      omega
    obtain ⟨arrays, harrays⟩ := ih hnext
    have hchunk : aviChunk (fourcc '0' '0' 'd' 'c') jpeg = .ok (frameChunk jpeg).bytes :=
      aviChunk_eq_ok_iff.mpr ⟨by omega, rfl⟩
    exact ⟨arrays, Except.bind_eq_ok hchunk
      (Except.bind_eq_ok (pack_entry_eq_ok_iff.mpr ⟨⟨by omega, by omega⟩, rfl⟩) harrays)⟩

end Frames

section File

def moviChunk (payloads : List Bytes) : Chunk :=
  ⟨fourcc 'L' 'I' 'S' 'T', fourcc 'm' 'o' 'v' 'i' ++ frameBytes payloads⟩

def idx1Chunk (payloads : List Bytes) : Chunk := ⟨fourcc 'i' 'd' 'x' '1', indexBytes 4 payloads⟩

def aviBody (hdrl : Bytes) (payloads : List Bytes) : Bytes :=
  hdrl ++ ((moviChunk payloads).bytes ++ (idx1Chunk payloads).bytes)

def riffChunk (hdrl : Bytes) (payloads : List Bytes) : Chunk :=
  ⟨fourcc 'R' 'I' 'F' 'F', fourcc 'A' 'V' 'I' ' ' ++ aviBody hdrl payloads⟩

def riffSize (payloads : List Bytes) : ℕ := 224 + framesLength payloads + 16*payloads.length

variable (payloads : List Bytes)

theorem length_movi : (moviChunk payloads).payload.length = 4 + framesLength payloads := by
  rw [moviChunk, List.length_append, length_frameBytes]
  rfl

theorem movi_even : (moviChunk payloads).payload.length%2 = 0 := by
  have heven := framesLength_even payloads
  rw [length_movi]
  omega

theorem length_idx1 : (idx1Chunk payloads).payload.length = 16*payloads.length :=
  length_indexBytes 4 payloads

theorem idx1_even : (idx1Chunk payloads).payload.length%2 = 0 := by
  rw [length_idx1]
  omega

variable {quotient : ℤ → ℤ → ℤ} {fps width height : ℤ} {hdrl : Bytes}

theorem length_aviHeader {frameCount maxFrame totalBytes : ℕ}
    (h : aviHeader quotient fps width height frameCount maxFrame totalBytes = .ok hdrl) : hdrl.length = 200 := by
  obtain ⟨-, rfl⟩ := aviHeader_eq_ok_iff.mp h
  rw [Chunk.length_bytes rfl, length_hdrl]

theorem length_riff (hhdrl : hdrl.length = 200) (payloads : List Bytes) :
    (riffChunk hdrl payloads).payload.length = riffSize payloads := by
  have hmovi : (moviChunk payloads).bytes.length = 12 + framesLength payloads := by
    have heven := framesLength_even payloads
    rw [Chunk.length_bytes rfl, length_movi]
    omega
  have hidx1 : (idx1Chunk payloads).bytes.length = 8 + 16*payloads.length := by
    rw [Chunk.length_bytes rfl, length_idx1]
    omega
  rw [riffChunk, List.length_append, aviBody, List.length_append, List.length_append, hhdrl, hmovi, hidx1, riffSize]
  have hname : (fourcc 'A' 'V' 'I' ' ').length = 4 := rfl
  omega

theorem riff_even (hhdrl : hdrl.length = 200) (payloads : List Bytes) :
    (riffChunk hdrl payloads).payload.length%2 = 0 := by
  have heven := framesLength_even payloads
  rw [length_riff hhdrl, riffSize]
  omega

theorem buildAviBytes_eq_ok_iff {payloads : List Bytes} {out : Bytes} :
    buildAviBytes quotient payloads fps width height = .ok out ↔
      payloads ≠ [] ∧ riffSize payloads < 2^32 ∧ ∃ hdrl,
        aviHeader quotient fps width height payloads.length (maxLength payloads) (totalLength payloads) = .ok hdrl ∧
        (riffChunk hdrl payloads).bytes = out := by
  constructor
  · intro h
    rw [buildAviBytes] at h
    split_ifs at h with hne
    · cases h
    obtain ⟨hdrl, hhdrl, h⟩ := Except.exists_of_bind_eq_ok h
    obtain ⟨arrays, harrays, h⟩ := Except.exists_of_bind_eq_ok h
    obtain rfl := appendFrames_eq harrays
    obtain ⟨moviList, hmovi, h⟩ := Except.exists_of_bind_eq_ok h
    obtain ⟨-, rfl⟩ := (sized_eq_ok_iff (movi_even payloads)).mp hmovi
    obtain ⟨idx1, hidx1, h⟩ := Except.exists_of_bind_eq_ok h
    obtain ⟨-, rfl⟩ := (sized_eq_ok_iff (idx1_even payloads)).mp hidx1
    obtain ⟨hsize, hout⟩ := (sized_eq_ok_iff (riff_even (length_aviHeader hhdrl) payloads)).mp h
    exact ⟨hne, lt_of_eq_of_lt (length_riff (length_aviHeader hhdrl) payloads).symm hsize, hdrl, hhdrl, hout⟩
  · rintro ⟨hne, hsize, hdrl, hhdrl, rfl⟩
    have hlength := length_aviHeader hhdrl
    have hmovi : 4 + framesLength payloads < 2^32 := by
      rw [riffSize] at hsize
      omega
    have hidx1 : 16*payloads.length < 2^32 := by
      rw [riffSize] at hsize
      omega
    obtain ⟨arrays, harrays⟩ : ∃ arrays, appendFrames payloads (fourcc 'm' 'o' 'v' 'i') [] = .ok arrays :=
      appendFrames_ok hmovi
    rw [buildAviBytes, if_neg hne]
    apply Except.bind_eq_ok hhdrl
    apply Except.bind_eq_ok harrays
    obtain rfl := appendFrames_eq harrays
    apply Except.bind_eq_ok ((sized_eq_ok_iff (movi_even payloads)).mpr ⟨lt_of_eq_of_lt (length_movi payloads) hmovi, rfl⟩)
    apply Except.bind_eq_ok ((sized_eq_ok_iff (idx1_even payloads)).mpr ⟨lt_of_eq_of_lt (length_idx1 payloads) hidx1, rfl⟩)
    exact (sized_eq_ok_iff (riff_even hlength payloads)).mpr ⟨lt_of_eq_of_lt (length_riff hlength payloads) hsize, rfl⟩

structure Accepted (quotient : ℤ → ℤ → ℤ) (fps width height : ℤ) (payloads : List Bytes) : Prop where
  rate : 0 < fps ∧ fps < 2^32
  dimensions : (0 ≤ width ∧ width < 2^15) ∧ 0 ≤ height ∧ height < 2^15
  microPerFrame : quotient 1000000 fps < 2^32
  maxBytesPerSec : 0 ≤ quotient (totalLength payloads*fps) payloads.length ∧
    quotient (totalLength payloads*fps) payloads.length < 2^32

theorem headerFits_of_accepted {payloads : List Bytes} (h : Accepted quotient fps width height payloads) (hcount : payloads.length < 2^32)
    (hmax : maxLength payloads < 2^32) :
    HeaderFits quotient fps width height payloads.length (maxLength payloads) (totalLength payloads) := by
  obtain ⟨⟨hfps, hfps'⟩, ⟨⟨hwidth, hwidth'⟩, hheight, hheight'⟩, hmicro, hrate, hrate'⟩ := h
  have harea : 0 ≤ width*height*3 ∧ width*height*3 < 2^32 := by
    have hle : width*height ≤ 32767*32767 := mul_le_mul (by omega) (by omega) hheight (by norm_num)
    have hnonneg := mul_nonneg hwidth hheight
    omega
  refine ⟨hfps.ne', ?_, ?_, ?_⟩
  · simp only [avihItems, List.forall_mem_cons, List.not_mem_nil, false_imp_iff, implies_true, and_true, Item.Fits]
    omega
  · simp only [strhItems, List.forall_mem_cons, List.not_mem_nil, false_imp_iff, implies_true, true_and, and_true, Item.Fits]
    omega
  · simp only [strfItems, List.forall_mem_cons, List.not_mem_nil, false_imp_iff, implies_true, true_and, and_true, Item.Fits]
    omega

theorem maxLength_le : maxLength payloads ≤ framesLength payloads := by
  -- the running maximum is carried along
  have hrun (l : List Bytes) : ∀ m, (l.map List.length).foldl max m ≤ max m (framesLength l) := by
    induction l with
    | nil => exact fun m => Nat.le_max_left m _
    | cons jpeg l ih =>
      intro m
      have hnext := ih (max m jpeg.length)
      rw [List.map_cons, List.foldl_cons, framesLength]
      omega
  have hzero := hrun payloads 0
  rwa [Nat.zero_max] at hzero

theorem exists_buildAviBytes {payloads : List Bytes} (hne : payloads ≠ []) (hsize : riffSize payloads < 2^32)
    (h : Accepted quotient fps width height payloads) :
    ∃ out, buildAviBytes quotient payloads fps width height = .ok out := by
  have hframes : framesLength payloads < 2^32 ∧ payloads.length < 2^32 := by
    rw [riffSize] at hsize
    omega
  have hfits := headerFits_of_accepted h hframes.2 ((maxLength_le payloads).trans_lt hframes.1)
  have hhdrl := aviHeader_eq_ok_iff.mpr ⟨hfits, rfl⟩
  exact ⟨_, buildAviBytes_eq_ok_iff.mpr ⟨hne, hsize, _, hhdrl, rfl⟩⟩

end File

end PiBuddyCam.Timelapse
