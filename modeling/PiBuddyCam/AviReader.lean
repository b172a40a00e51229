import PiBuddyCam.AviLayout

/-! A reader of the AVI files that `_build_avi_bytes` writes: going by the size fields alone,
it comes to the headers, to the index, and through the index to each frame. -/
namespace PiBuddyCam.Timelapse

open Riff

structure Parts where
  body : Bytes
  hdrl : Bytes
  avih : Bytes
  strl : Bytes
  strh : Bytes
  strf : Bytes
  movi : Bytes
  idx : Bytes

/-- The file has these parts and holds these frames. Each list of chunks is read by its size
fields and to its very end. -/
structure Parts.WellFormed (p : Parts) (out : Bytes) (payloads : List Bytes) : Prop where
  riff : readChunks out = some [⟨fourcc 'R' 'I' 'F' 'F', fourcc 'A' 'V' 'I' ' ' ++ p.body⟩]
  riffSize : 8 + numberAt out 4 4 = out.length
  body : readChunks p.body = some
    [⟨fourcc 'L' 'I' 'S' 'T', fourcc 'h' 'd' 'r' 'l' ++ p.hdrl⟩, ⟨fourcc 'L' 'I' 'S' 'T', p.movi⟩,
      ⟨fourcc 'i' 'd' 'x' '1', p.idx⟩]
  hdrl : readChunks p.hdrl = some
    [⟨fourcc 'a' 'v' 'i' 'h', p.avih⟩, ⟨fourcc 'L' 'I' 'S' 'T', fourcc 's' 't' 'r' 'l' ++ p.strl⟩]
  strl : readChunks p.strl = some [⟨fourcc 's' 't' 'r' 'h', p.strh⟩, ⟨fourcc 's' 't' 'r' 'f', p.strf⟩]
  /-- `dwTotalFrames` of the main header. -/
  totalFrames : numberAt p.avih 16 4 = payloads.length
  /-- `dwLength` of the stream header. -/
  streamLength : numberAt p.strh 32 4 = payloads.length
  moviName : p.movi.take 4 = fourcc 'm' 'o' 'v' 'i'
  frames : readChunks (p.movi.drop 4) = some (payloads.map frameChunk)
  idxLength : p.idx.length = 16*payloads.length
  entries : ∀ i jpeg, payloads[i]? = some jpeg →
    (p.idx.drop (16*i)).take 4 = fourcc '0' '0' 'd' 'c' ∧ numberAt p.idx (16*i + 4) 4 = 0x10 ∧
    numberAt p.idx (16*i + 12) 4 = jpeg.length ∧
    ∃ rest, readChunk (p.movi.drop (numberAt p.idx (16*i + 8) 4)) = some (frameChunk jpeg, rest)

section Index

theorem numberAt_entry {before : Bytes} (after : Bytes) {offset length pos : ℕ} (hpos : before.length = pos)
    (hoffset : offset < 2^32) (hlength : length < 2^32) :
    let idx := before ++ (indexEntry offset length ++ after)
    (idx.drop pos).take 4 = fourcc '0' '0' 'd' 'c' ∧ numberAt idx (pos + 4) 4 = 0x10 ∧
    numberAt idx (pos + 8) 4 = offset ∧ numberAt idx (pos + 12) 4 = length := by
  intro idx
  have hidx : idx = before ++ (fourcc '0' '0' 'd' 'c' ++ (littleEndian 4 0x10 ++ (littleEndian 4 offset ++
      (littleEndian 4 length ++ after)))) := by
    simp only [idx, indexEntry, List.append_assoc]
  have hname : (before ++ fourcc '0' '0' 'd' 'c').length = pos + 4 := by
    rw [List.length_append, hpos]
    rfl
  have hflag : (before ++ fourcc '0' '0' 'd' 'c' ++ littleEndian 4 0x10).length = pos + 8 := by
    rw [List.length_append, hname, length_littleEndian]
  have hsecond : (before ++ fourcc '0' '0' 'd' 'c' ++ littleEndian 4 0x10 ++ littleEndian 4 offset).length = pos + 12 := by
    rw [List.length_append, hflag, length_littleEndian]
  rw [hidx]
  refine ⟨?_, ?_, ?_, ?_⟩
  · rw [drop_append_of_length _ hpos]
    rfl
  · rw [← List.append_assoc]
    exact numberAt_append hname 4 0x10 (by norm_num) _
  · rw [← List.append_assoc, ← List.append_assoc]
    exact numberAt_append hflag 4 offset (lt_of_lt_of_eq hoffset (by norm_num)) _
  · rw [← List.append_assoc, ← List.append_assoc, ← List.append_assoc]
    exact numberAt_append hsecond 4 length (lt_of_lt_of_eq hlength (by norm_num)) _

variable {before after : List Bytes} {jpeg : Bytes}

theorem indexBytes_split :
    indexBytes 4 (before ++ jpeg :: after) = indexBytes 4 before ++ (indexEntry (4 + framesLength before) jpeg.length ++
      indexBytes (4 + framesLength before + (8 + jpeg.length + jpeg.length%2)) after) := by
  rw [indexBytes_append, indexBytes]

theorem movi_drop :
    (fourcc 'm' 'o' 'v' 'i' ++ frameBytes (before ++ jpeg :: after)).drop (4 + framesLength before) =
      (frameChunk jpeg).bytes ++ frameBytes after := by
  have hlength : (fourcc 'm' 'o' 'v' 'i' ++ frameBytes before).length = 4 + framesLength before := by
    rw [List.length_append, length_frameBytes]
    rfl
  rw [frameBytes_append, frameBytes_cons, ← List.append_assoc]
  exact drop_append_of_length _ hlength

end Index

section Reader

variable {quotient : ℤ → ℤ → ℤ} {fps width height : ℤ} {payloads : List Bytes}

theorem frameChunk_fits (h : framesLength payloads < 2^32) {jpeg : Bytes} (hjpeg : jpeg ∈ payloads) :
    (frameChunk jpeg).Fits :=
  ⟨rfl, (length_le_framesLength hjpeg).trans_lt h⟩

def builtParts (quotient : ℤ → ℤ → ℤ) (fps width height : ℤ) (payloads : List Bytes) : Parts :=
  let n := payloads.length
  let m := maxLength payloads
  let total := totalLength payloads
  { body := aviBody (hdrlChunk quotient fps width height n m total).bytes payloads
    hdrl := hdrlBody quotient fps width height n m total
    avih := (avihChunk quotient fps width height n m total).payload
    strl := strlBody fps width height n m
    strh := (strhChunk fps width height n m).payload
    strf := (strfChunk width height).payload
    movi := (moviChunk payloads).payload
    idx := (idx1Chunk payloads).payload }

theorem chunk_fits {c : Chunk} {n : ℕ} (hid : c.id.length = 4) (hlength : c.payload.length = n) (hn : n < 2^32) : c.Fits :=
  ⟨hid, lt_of_eq_of_lt hlength hn⟩

theorem entries_of_split (hsize : riffSize payloads < 2^32) {i : ℕ} {jpeg : Bytes} (h : payloads[i]? = some jpeg) :
    ((indexBytes 4 payloads).drop (16*i)).take 4 = fourcc '0' '0' 'd' 'c' ∧
    numberAt (indexBytes 4 payloads) (16*i + 4) 4 = 0x10 ∧
    numberAt (indexBytes 4 payloads) (16*i + 12) 4 = jpeg.length ∧
    ∃ rest, readChunk ((moviChunk payloads).payload.drop (numberAt (indexBytes 4 payloads) (16*i + 8) 4)) =
      some (frameChunk jpeg, rest) := by
  obtain ⟨before, after, hsplit, hbefore⟩ : ∃ before after, payloads = before ++ jpeg :: after ∧ before.length = i := by
    obtain ⟨hi, rfl⟩ := List.getElem?_eq_some_iff.mp h
    refine ⟨payloads.take i, payloads.drop (i+1), ?_, List.length_take_of_le hi.le⟩
    rw [List.getElem_cons_drop, List.take_append_drop]
  have hlength : framesLength payloads = framesLength before + (8 + jpeg.length + jpeg.length%2 + framesLength after) := by
    rw [hsplit, ← length_frameBytes, frameBytes_append, List.length_append, length_frameBytes, length_frameBytes, framesLength]
  rw [riffSize] at hsize
  have hpos : (indexBytes 4 before).length = 16*i := by rw [length_indexBytes, hbefore]
  have hentry := numberAt_entry (indexBytes (4 + framesLength before + (8 + jpeg.length + jpeg.length%2)) after) hpos
    (show 4 + framesLength before < 2^32 by omega) (show jpeg.length < 2^32 by omega)
  rw [hsplit, indexBytes_split]
  obtain ⟨hname, hflag, hoffset, hjpeg⟩ := hentry
  refine ⟨hname, hflag, hjpeg, frameBytes after, ?_⟩
  have hfits : (frameChunk jpeg).Fits := ⟨rfl, show jpeg.length < 2^32 by omega⟩
  rw [hoffset, moviChunk, movi_drop, readChunk_append hfits]

theorem riffChunk_wellFormed (hsize : riffSize payloads < 2^32) :
    (builtParts quotient fps width height payloads).WellFormed
      (riffChunk (hdrlChunk quotient fps width height payloads.length (maxLength payloads) (totalLength payloads)).bytes
        payloads).bytes payloads := by
  have hparts : 4 + framesLength payloads < 2^32 ∧ 16*payloads.length < 2^32 := by
    rw [riffSize] at hsize
    omega
  have hlength : (hdrlChunk quotient fps width height payloads.length (maxLength payloads)
      (totalLength payloads)).bytes.length = 200 := by
    rw [Chunk.length_bytes rfl, length_hdrl]
  have hriff := chunk_fits rfl (length_riff hlength payloads) hsize
  have hhdrl := chunk_fits rfl
    (length_hdrl quotient fps width height payloads.length (maxLength payloads) (totalLength payloads)) (by norm_num)
  have hmovi := chunk_fits rfl (length_movi payloads) hparts.1
  have hidx1 := chunk_fits rfl (length_idx1 payloads) hparts.2
  have havih := chunk_fits rfl
    (length_avih quotient fps width height payloads.length (maxLength payloads) (totalLength payloads)) (by norm_num)
  have hstrl := chunk_fits rfl (length_strl fps width height payloads.length (maxLength payloads)) (by norm_num)
  have hstrh := chunk_fits rfl (length_strh fps width height payloads.length (maxLength payloads)) (by norm_num)
  have hstrf := chunk_fits rfl (length_strf width height) (by norm_num)
  have hcount : payloads.length < 256^4 := by
    have := hparts.2
    omega
  constructor
  case riff => exact readChunks_single hriff
  case riffSize =>
    have hnumber := numberAt_size hriff []
    rw [List.append_nil] at hnumber
    rw [hnumber, Chunk.length_bytes rfl, riff_even hlength]
    rfl
  case body =>
    rw [builtParts, aviBody, readChunks_append hhdrl, readChunks_pair hmovi hidx1]
    rfl
  case hdrl => exact readChunks_pair havih hstrl
  case strl => exact readChunks_pair hstrh hstrf
  case totalFrames =>
    exact numberAt_items [_, _, _, _] _ hcount rfl
  case streamLength =>
    exact numberAt_items [_, _, _, _, _, _, _, _, _] _ hcount rfl
  case moviName => rfl
  case frames =>
    apply readChunks_flatMap
    intro c hc
    obtain ⟨jpeg, hjpeg, rfl⟩ := List.mem_map.mp hc
    exact frameChunk_fits (lt_of_le_of_lt (Nat.le_add_left _ _) hparts.1) hjpeg
  case idxLength => exact length_idx1 payloads
  case entries => exact fun i jpeg h => entries_of_split hsize h

/-- For frames that stay within 32 bits, every file that the builder returns is well formed
and gives back the frames, and it returns one for every rate and size its fields can hold. -/
theorem built_avi_wellFormed (quotient : ℤ → ℤ → ℤ) (fps width height : ℤ) (payloads : List Bytes) (hne : payloads ≠ [])
    (hsize : riffSize payloads < 2^32) :
    (∀ out, buildAviBytes quotient payloads fps width height = .ok out →
      ∃ parts : Parts, parts.WellFormed out payloads) ∧
    (Accepted quotient fps width height payloads → ∃ out, buildAviBytes quotient payloads fps width height = .ok out) := by
  constructor
  · intro out hout
    obtain ⟨-, -, hdrl, hhdrl, rfl⟩ := buildAviBytes_eq_ok_iff.mp hout
    obtain ⟨-, rfl⟩ := aviHeader_eq_ok_iff.mp hhdrl
    exact ⟨builtParts quotient fps width height payloads, riffChunk_wellFormed hsize⟩
  · exact fun haccepted => exists_buildAviBytes hne hsize haccepted

theorem two_frames_wellFormed :
    ∃ out, buildAviBytes (· / ·) [[1, 2, 3], [4]] 10 640 480 = .ok out ∧
      ∃ parts : Parts, parts.WellFormed out [[1, 2, 3], [4]] := by
  have h := built_avi_wellFormed (· / ·) 10 640 480 [[1, 2, 3], [4]] (by decide) (by decide)
  obtain ⟨out, hout⟩ := h.2 ⟨by decide, by decide, by decide, by decide⟩
  exact ⟨out, hout, h.1 out hout⟩

end Reader

end PiBuddyCam.Timelapse
