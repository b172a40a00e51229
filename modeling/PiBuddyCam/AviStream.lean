import PiBuddyCam.AviLayout

/-! The streaming writer: however the reads of the frames come back, it writes the bytes
that `_build_avi_bytes` returns. -/
namespace PiBuddyCam.Timelapse

open Riff

def Frame.of (jpeg : Bytes) : Frame := ⟨jpeg.length, jpeg⟩

def NotStopped (opts : Options) (c : Choice) : Prop := opts.stopEvent = true → c.stop = false

def Writes (opts : Options) (p : Build (Except BuildError Unit)) (data : Bytes) (s : Files) : Prop :=
  p.Safe fileSystem (NotStopped opts) (fun _ => True) (fun r t => r = .ok () ∧ t.out = s.out ++ data) s

section Rules

variable {opts : Options} {p q : Build (Except BuildError Unit)} {first second : Bytes} {s : Files}

theorem writes_nothing : Writes opts (pure (.ok ())) [] s := ⟨rfl, (List.append_nil s.out).symm⟩

theorem writes_op {o : Op} {f : o.Res → Build (Except BuildError Unit)}
    (h : ∀ c, NotStopped opts c → (fileSystem.step s o c).2.out = s.out ++ first ∧
      Writes opts (f (fileSystem.step s o c).1) second (fileSystem.step s o c).2) :
    Writes opts (sys o >>= f) (first ++ second) s := by
  intro c hc
  obtain ⟨hout, hrest⟩ := h c hc
  refine ⟨trivial, hrest.post ?_⟩
  rintro r t ⟨hr, ht⟩
  exact ⟨hr, by rw [ht, hout, List.append_assoc]⟩

theorem writes_write (h : Writes opts p second { s with out := s.out ++ first }) :
    Writes opts (sys (.write first) >>= fun _ => p) (first ++ second) s :=
  writes_op fun _ _ => ⟨rfl, h⟩

theorem writes_seq (h : Writes opts p first s) (hnext : ∀ t, Writes opts q second t) :
    Writes opts (p >>= fun r => whenOk r fun _ => q) (first ++ second) s := by
  apply Prog.Safe.bind h
  rintro r t ⟨rfl, ht⟩
  refine (hnext t).post ?_
  rintro r' u ⟨hr, hu⟩
  exact ⟨hr, by rw [hu, ht, List.append_assoc]⟩

end Rules

section Loops

variable {opts : Options}

theorem readLength_bounds {remaining : ℕ} (c : Choice) (hchunk : 1 ≤ opts.readChunk) (hremaining : remaining ≠ 0) :
    0 < readLength (min opts.readChunk remaining) c ∧ readLength (min opts.readChunk remaining) c ≤ remaining := by
  rw [readLength]
  omega

theorem safe_cancelled (s : Files) :
    (cancelled opts).Safe fileSystem (NotStopped opts) (fun _ => True) (fun stop t => stop = false ∧ t = s) s := by
  rw [cancelled]
  split_ifs with hevent
  · exact fun c hc => ⟨trivial, hc hevent, rfl⟩
  · exact ⟨rfl, rfl⟩

theorem writes_copyFrame (hchunk : 1 ≤ opts.readChunk) (remaining : ℕ) (s : Files) (hle : remaining ≤ s.handle.length) :
    Writes opts (copyFrame opts remaining) (s.handle.take remaining) s := by
  induction remaining using Nat.strong_induction_on generalizing s with
  | h remaining ih =>
    rw [copyFrame]
    by_cases hzero : remaining = 0
    · rw [if_pos hzero, hzero]
      exact writes_nothing
    rw [if_neg hzero]
    apply Prog.Safe.bind (safe_cancelled s)
    rintro stop t ⟨rfl, rfl⟩
    rw [if_neg Bool.false_ne_true, ← List.nil_append (t.handle.take remaining)]
    apply writes_op
    intro c _
    obtain ⟨hpos, hlt⟩ := readLength_bounds c hchunk hzero
    generalize hk : readLength (min opts.readChunk remaining) c = k at hpos hlt
    have hlength : (t.handle.take k).length = k := List.length_take_of_le (hlt.trans hle)
    have hsome : t.handle.take k ≠ [] := List.length_pos_iff.mp (lt_of_lt_of_eq hpos hlength.symm)
    have hrest : remaining - k ≤ (t.handle.drop k).length := by
      rw [List.length_drop]
      omega
    -- the piece that was read, and then what the other rounds write
    have hsplit : t.handle.take remaining = t.handle.take k ++ (t.handle.drop k).take (remaining - k) := by
      rw [← List.take_add, Nat.add_sub_cancel' hlt]
    have hround : Writes opts (if t.handle.take k = [] then pure (.error .frameTruncated) else do
        sys (.write (t.handle.take k))
        copyFrame opts (remaining - (t.handle.take k).length)) (t.handle.take remaining)
        { t with handle := t.handle.drop k } := by
      rw [if_neg hsome, hsplit, hlength]
      exact writes_write (ih (remaining - k) (by omega) _ hrest)
    rw [← hk] at hround
    exact ⟨(List.append_nil _).symm, hround⟩

theorem whenOk_ok {α β : Type} {r : Except BuildError α} {a : α} (h : r = .ok a)
    (f : α → Build (Except BuildError β)) : whenOk r f = f a := by
  rw [h]
  rfl

section Frame

variable {q : Build (Except BuildError Unit)} {data : Bytes}

theorem writes_padFrame (size : ℕ) (s : Files) (hnext : ∀ t, Writes opts q data t) :
    Writes opts (padFrame size >>= fun _ => q) (padding size ++ data) s := by
  rw [padFrame, padding]
  by_cases hodd : size%2 = 1
  · rw [if_pos hodd, if_pos hodd]
    exact writes_write (hnext _)
  · rw [if_neg hodd, if_neg hodd]
    exact hnext s

theorem writes_reportProgress (written total : ℕ) (s : Files) (hnext : ∀ t, Writes opts q data t) :
    Writes opts (reportProgress opts written total >>= fun _ => q) data s := by
  rw [reportProgress]
  by_cases hprogress : opts.progress = true
  · rw [if_pos hprogress, ← List.nil_append data]
    exact writes_op fun _ _ => ⟨(List.append_nil _).symm, hnext _⟩
  · rw [if_neg hprogress]
    exact hnext s

end Frame

theorem writes_writeFrames (hchunk : 1 ≤ opts.readChunk) (total : ℕ) (payloads : List Bytes)
    (hsize : framesLength payloads < 2^32) (written : ℕ) (s : Files) :
    Writes opts (writeFrames opts total written (payloads.map Frame.of)) (frameBytes payloads) s := by
  induction payloads generalizing written s with
  | nil => exact writes_nothing
  | cons jpeg payloads ih =>
    rw [framesLength] at hsize
    have hpack : pack [.unsigned 4 (Frame.of jpeg).size] = .ok (littleEndian 4 jpeg.length) :=
      pack_size_eq_ok_iff.mpr ⟨show jpeg.length < 2^32 by omega, rfl⟩
    have hbytes : frameBytes (jpeg :: payloads) = (fourcc '0' '0' 'd' 'c' ++ littleEndian 4 jpeg.length) ++
        ([] ++ (jpeg ++ (padding jpeg.length ++ frameBytes payloads))) := by
      simp only [frameBytes_cons, Chunk.bytes, frameChunk, List.append_assoc, List.nil_append]
    rw [List.map_cons, writeFrames, whenOk_ok hpack, hbytes]
    apply writes_write
    apply writes_op
    intro c _
    refine ⟨(List.append_nil _).symm, ?_⟩
    have hcopy (out : Bytes) : Writes opts (copyFrame opts jpeg.length) jpeg ⟨out, jpeg⟩ := by
      have h := writes_copyFrame hchunk jpeg.length ⟨out, jpeg⟩ le_rfl
      rwa [List.take_length] at h
    apply writes_seq (hcopy _)
    intro t
    apply writes_padFrame
    intro u
    apply writes_reportProgress
    intro v
    exact ih (by omega) (written + 1) v

theorem writes_writeIndex (payloads : List Bytes) (offset : ℕ) (hsize : offset + framesLength payloads < 2^32) (s : Files) :
    Writes opts (writeIndex offset (payloads.map Frame.of)) (indexBytes offset payloads) s := by
  induction payloads generalizing offset s with
  | nil => exact writes_nothing
  | cons jpeg payloads ih =>
    rw [framesLength] at hsize
    have hpack : pack [.unsigned 4 0x10, .unsigned 4 offset, .unsigned 4 (Frame.of jpeg).size] = .ok _ :=
      pack_entry_eq_ok_iff.mpr ⟨⟨show offset < 2^32 by omega, show jpeg.length < 2^32 by omega⟩, rfl⟩
    rw [List.map_cons, writeIndex, whenOk_ok hpack]
    apply writes_write
    apply ih
    change offset + (8 + jpeg.length + jpeg.length%2) + framesLength payloads < 2^32
    omega

end Loops

section File

theorem measure_map (payloads : List Bytes) :
    measure (payloads.map Frame.of) = ⟨maxLength payloads, totalLength payloads, 4 + framesLength payloads⟩ := by
  have hrun (l : List Bytes) : ∀ m : Measure, (l.map Frame.of).foldl Measure.add m =
      ⟨(l.map List.length).foldl max m.maxFrame, (l.map List.length).foldl (· + ·) m.totalBytes,
        m.moviPayloadLen + framesLength l⟩ := by
    induction l with
    | nil => exact fun m => rfl
    | cons jpeg l ih =>
      intro m
      have hmax : (m.add (Frame.of jpeg)).maxFrame = max m.maxFrame jpeg.length := by
        rw [Measure.add, Frame.of]
        dsimp only
        split_ifs <;> omega
      have hmovi : (m.add (Frame.of jpeg)).moviPayloadLen = m.moviPayloadLen + (8 + jpeg.length + jpeg.length%2) := rfl
      rw [List.map_cons, List.foldl_cons, ih, hmax, hmovi, framesLength, Nat.add_assoc]
      rfl
  exact hrun payloads {}

theorem riffChunk_bytes {hdrl : Bytes} (hhdrl : hdrl.length = 200) (payloads : List Bytes) :
    (riffChunk hdrl payloads).bytes =
      (fourcc 'R' 'I' 'F' 'F' ++ (littleEndian 4 (riffSize payloads) ++ fourcc 'A' 'V' 'I' ' ')) ++ (hdrl ++
      ((fourcc 'L' 'I' 'S' 'T' ++ (littleEndian 4 (4 + framesLength payloads) ++ fourcc 'm' 'o' 'v' 'i')) ++
      (frameBytes payloads ++ ((fourcc 'i' 'd' 'x' '1' ++ littleEndian 4 (16*payloads.length)) ++ indexBytes 4 payloads)))) := by
  have hriff := Chunk.bytes_of_even (riff_even hhdrl payloads)
  have hmovi := Chunk.bytes_of_even (movi_even payloads)
  have hidx1 := Chunk.bytes_of_even (idx1_even payloads)
  rw [length_riff hhdrl] at hriff
  rw [length_movi] at hmovi
  rw [length_idx1] at hidx1
  rw [hriff, riffChunk, aviBody, hmovi, hidx1, moviChunk, idx1Chunk]
  simp only [List.append_assoc]

theorem writes_buildAviStream {quotient : ℤ → ℤ → ℤ} {fps width height : ℤ} {payloads : List Bytes} {hdrl : Bytes}
    {opts : Options} (hne : payloads ≠ []) (hsize : riffSize payloads < 2^32)
    (hhdrl : aviHeader quotient fps width height payloads.length (maxLength payloads) (totalLength payloads) = .ok hdrl)
    (hchunk : 1 ≤ opts.readChunk) (s : Files) :
    Writes opts (buildAviStream quotient opts (payloads.map Frame.of) fps width height) (riffChunk hdrl payloads).bytes s := by
  have hlength := length_aviHeader hhdrl
  have hparts : 4 + framesLength payloads < 2^32 ∧ 16*payloads.length < 2^32 := by
    rw [riffSize] at hsize
    omega
  have hbody : 4 + hdrl.length + 8 + (4 + framesLength payloads) + 8 + 16*payloads.length = riffSize payloads := by
    rw [hlength, riffSize]
    omega
  have hmap : payloads.map Frame.of ≠ [] := fun h => hne (List.map_eq_nil_iff.mp h)
  rw [riffChunk_bytes hlength, buildAviStream, if_neg hmap]
  simp only [measure_map, List.length_map]
  rw [whenOk_ok hhdrl]
  rw [hbody, whenOk_ok (pack_size_eq_ok_iff.mpr ⟨hsize, rfl⟩)]
  apply writes_write
  apply writes_write
  rw [whenOk_ok (pack_size_eq_ok_iff.mpr ⟨hparts.1, rfl⟩)]
  apply writes_write
  apply writes_seq (writes_writeFrames hchunk payloads.length payloads (by omega) 0 _)
  intro t
  rw [whenOk_ok (pack_size_eq_ok_iff.mpr ⟨hparts.2, rfl⟩)]
  apply writes_write
  exact writes_writeIndex payloads 4 hparts.1 _

/-- The streaming writer returns, and the output is what the builder in memory returns: for
every length of the reads, with or without a progress callback, as long as no stop event is set. -/
theorem stream_writes_built_bytes (quotient : ℤ → ℤ → ℤ) (fps width height : ℤ) (payloads : List Bytes) (out : Bytes)
    (hbuilt : buildAviBytes quotient payloads fps width height = .ok out) (opts : Options) (hchunk : 1 ≤ opts.readChunk)
    (answers : ℕ → Choice) (hstop : ∀ n, NotStopped opts (answers n)) :
    ((buildAviStream quotient opts (payloads.map Frame.of) fps width height).run fileSystem answers {}).1 = .ok () ∧
    ((buildAviStream quotient opts (payloads.map Frame.of) fps width height).run fileSystem answers {}).2.out = out := by
  obtain ⟨hne, hsize, hdrl, hhdrl, rfl⟩ := buildAviBytes_eq_ok_iff.mp hbuilt
  have hwrites := writes_buildAviStream hne hsize hhdrl hchunk {}
  exact hwrites.run hstop

theorem two_frames_streamed :
    ∃ out, buildAviBytes (· / ·) [[1, 2, 3], [4]] 10 640 480 = .ok out ∧
      ((buildAviStream (· / ·) ⟨2, true, true⟩ (List.map Frame.of [[1, 2, 3], [4]]) 10 640 480).run fileSystem
        (fun _ => ⟨0, false⟩) {}).1 = .ok () ∧
      ((buildAviStream (· / ·) ⟨2, true, true⟩ (List.map Frame.of [[1, 2, 3], [4]]) 10 640 480).run fileSystem
        (fun _ => ⟨0, false⟩) {}).2.out = out := by
  obtain ⟨out, hout⟩ : ∃ out, buildAviBytes (· / ·) [[1, 2, 3], [4]] 10 640 480 = .ok out :=
    exists_buildAviBytes (by decide) (by decide) ⟨by decide, by decide, by decide, by decide⟩
  exact ⟨out, hout, stream_writes_built_bytes (· / ·) 10 640 480 [[1, 2, 3], [4]] out hout ⟨2, true, true⟩ (by decide)
    (fun _ => ⟨0, false⟩) (fun _ _ => rfl)⟩

end File

end PiBuddyCam.Timelapse
