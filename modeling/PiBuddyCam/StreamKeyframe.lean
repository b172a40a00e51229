import PiBuddyCam.StreamRuns

/-! The keyframe buffer of the mux. A buffer that is promoted begins at the first SPS or IDR of a
block, so it begins with an SPS only if that block has one in front of its IDRs. -/
namespace PiBuddyCam.Stream

open ByteSearch

def NalAt (data : Bytes) (offset : ℕ) (type : UInt8) : Prop :=
  startCode <+: data.drop offset ∧ offset + 4 < data.length ∧ nalType (data.getD (offset + 4) 0) = type

def KeyAt (data : Bytes) (offset : ℕ) : Prop := NalAt data offset 5 ∨ NalAt data offset 7

section Search

theorem keyAt_iff {data : Bytes} {offset : ℕ} : KeyAt data offset ↔
    startCode <+: data.drop offset ∧ offset + 4 < data.length ∧ nalType (data.getD (offset + 4) 0) ∈ [5, 7] := by
  simp only [KeyAt, NalAt, List.mem_cons, List.not_mem_nil, or_false]
  tauto

theorem no_overlap {data : Bytes} {i k : ℕ} (h : startCode <+: data.drop i) (hk : 0 < k) (hk' : k < 4) :
    ¬startCode <+: data.drop (i + k) := by
  rw [← List.drop_drop]
  obtain ⟨tail, htail⟩ := h
  rw [← htail]
  obtain rfl | rfl | rfl : k = 1 ∨ k = 2 ∨ k = 3 := by omega
  · rintro ⟨rest, hrest⟩
    cases hrest
  · rintro ⟨rest, hrest⟩
    cases hrest
  · rintro ⟨rest, hrest⟩
    cases hrest

theorem keyframeFrom_iff (data : Bytes) (start : ℕ) :
    keyframeFrom data start = true ↔ ∃ offset, start ≤ offset ∧ KeyAt data offset := by
  fun_induction keyframeFrom data start with
  | case1 start hfind =>
    refine iff_of_false Bool.false_ne_true ?_
    rintro ⟨offset, hoffset, hkey⟩
    exact not_isPrefix_drop_of_find_eq_none hfind hoffset (keyAt_iff.mp hkey).1
  | case2 start i hfind hlt htype =>
    have hbounds := bounds_of_find (by simp [startCode]) hfind
    exact iff_of_true rfl ⟨i, hbounds.1, keyAt_iff.mpr ⟨isPrefix_drop_of_find hfind, hlt, htype⟩⟩
  | case3 start i hfind hlt htype ih =>
    have hbounds := bounds_of_find (by simp [startCode]) hfind
    rw [ih]
    constructor
    · rintro ⟨offset, hoffset, hkey⟩
      exact ⟨offset, by omega, hkey⟩
    · rintro ⟨offset, hoffset, hkey⟩
      refine ⟨offset, ?_, hkey⟩
      -- in front of the next search there is only the start code that was looked at
      by_contra hbefore
      have hstart := (keyAt_iff.mp hkey).1
      rcases Nat.lt_trichotomy offset i with hoi | rfl | hoi
      · exact not_isPrefix_drop_of_lt_find hfind hoffset hoi hstart
      · exact htype (keyAt_iff.mp hkey).2.2
      · obtain ⟨k, rfl⟩ := Nat.exists_eq_add_of_lt hoi
        exact no_overlap (isPrefix_drop_of_find hfind) (Nat.succ_pos k) (by omega) hstart
  | case4 start i hfind hlt =>
    refine iff_of_false Bool.false_ne_true ?_
    rintro ⟨offset, hoffset, hkey⟩
    have hinside := (keyAt_iff.mp hkey).2.1
    exact not_isPrefix_drop_of_lt_find hfind hoffset (by omega) (keyAt_iff.mp hkey).1

theorem isKeyframeStart_iff (data : Bytes) : isKeyframeStart data = true ↔ ∃ offset, KeyAt data offset := by
  rw [isKeyframeStart, keyframeFrom_iff]
  simp only [Nat.zero_le, true_and]

theorem spsPos_spec {chunk : Bytes} (h : ∃ offset, KeyAt chunk offset) :
    KeyAt chunk (spsPos chunk) ∧ ∀ offset < spsPos chunk, ¬KeyAt chunk offset := by
  have htest (offset : ℕ) (hlt : offset < chunk.length - 4) :
      ((chunk.drop offset).take 4 = startCode ∧ nalType (chunk.getD (offset + 4) 0) ∈ [5, 7]) ↔ KeyAt chunk offset := by
    rw [keyAt_iff, List.prefix_iff_eq_take, eq_comm]
    exact ⟨fun hkey => ⟨hkey.1, by omega, hkey.2⟩, fun hkey => ⟨hkey.1, hkey.2.2⟩⟩
  obtain ⟨offset, hkey⟩ := h
  have hrange : offset < chunk.length - 4 := by
    have hlt := (keyAt_iff.mp hkey).2.1
    omega
  cases hfind : (List.range (chunk.length - 4)).find? fun offset =>
      (chunk.drop offset).take 4 = startCode ∧ nalType (chunk.getD (offset + 4) 0) ∈ [5, 7] with
  | none =>
    have hnot := List.find?_eq_none.mp hfind offset (List.mem_range.mpr hrange)
    exact absurd (decide_eq_true ((htest offset hrange).mpr hkey)) hnot
  | some pos =>
    obtain ⟨hpos, hmem, hbefore⟩ := List.find?_range_eq_some.mp hfind
    have hlt := List.mem_range.mp hmem
    have hsps : spsPos chunk = pos := by rw [spsPos, hfind]; rfl
    rw [hsps]
    refine ⟨(htest pos hlt).mp (of_decide_eq_true hpos), fun o ho hokey => ?_⟩
    have hnot := hbefore o ho
    rw [Bool.not_eq_true', decide_eq_false_iff_not] at hnot
    exact hnot ((htest o (by omega)).mpr hokey)

end Search

def trimmed (chunk : Bytes) : Bytes := chunk.drop (spsPos chunk)

/-- The block `a` has an SPS or an IDR, the next block has none, and together they are long enough:
their bytes from that NAL on are promoted. -/
structure Promotes (a b : Bytes) : Prop where
  key : ∃ offset, KeyAt a offset
  noKey : ¬∃ offset, KeyAt b offset
  long : 32768 < (trimmed a ++ b).length

section Promotions

variable {chunk : Bytes}

theorem keyframeStep_key (h : ∃ offset, KeyAt chunk offset) (kfBuf : Bytes) :
    keyframeStep kfBuf chunk = (trimmed chunk, none) := by
  rw [keyframeStep, if_pos ((isKeyframeStart_iff chunk).mpr h)]
  rfl

theorem keyframeStep_empty (h : ¬∃ offset, KeyAt chunk offset) : keyframeStep [] chunk = ([], none) := by
  rw [keyframeStep, if_neg fun hkey => h ((isKeyframeStart_iff chunk).mp hkey), if_neg fun hne => hne rfl]

theorem keyframeStep_long {kfBuf chunk : Bytes} (h : ¬∃ offset, KeyAt chunk offset) (hne : kfBuf ≠ [])
    (hlong : 32768 < (kfBuf ++ chunk).length) : keyframeStep kfBuf chunk = ([], some (kfBuf ++ chunk)) := by
  rw [keyframeStep, if_neg fun hkey => h ((isKeyframeStart_iff chunk).mp hkey), if_pos hne, if_pos hlong]

theorem keyframeStep_short {kfBuf chunk : Bytes} (h : ¬∃ offset, KeyAt chunk offset) (hne : kfBuf ≠ [])
    (hshort : ¬32768 < (kfBuf ++ chunk).length) : keyframeStep kfBuf chunk = (kfBuf ++ chunk, none) := by
  rw [keyframeStep, if_neg fun hkey => h ((isKeyframeStart_iff chunk).mp hkey), if_pos hne, if_neg hshort]

theorem trimmed_ne_nil (h : ∃ offset, KeyAt chunk offset) : trimmed chunk ≠ [] := by
  have hlt := (keyAt_iff.mp (spsPos_spec h).1).2.1
  intro hnil
  have hlength := congrArg List.length hnil
  rw [trimmed, List.length_drop, List.length_nil] at hlength
  omega

def PromotedFrom (chunks : List Bytes) (buf : Bytes) : Prop :=
  ∃ a b, [a, b] <:+: chunks ∧ Promotes a b ∧ buf = trimmed a ++ b

theorem promotedFrom_nil (buf : Bytes) : ¬PromotedFrom [] buf := by
  rintro ⟨a, b, hpair, -, -⟩
  exact absurd (List.infix_nil.mp hpair) (by simp)

theorem promotedFrom_cons {c buf : Bytes} {cs : List Bytes} : PromotedFrom (c :: cs) buf ↔
    (∃ b, cs.head? = some b ∧ Promotes c b ∧ buf = trimmed c ++ b) ∨ PromotedFrom cs buf := by
  constructor
  · rintro ⟨a, b, hpair, hpromotes, hbuf⟩
    rcases pair_infix_cons.mp hpair with ⟨rfl, hb⟩ | hrest
    · exact Or.inl ⟨b, hb, hpromotes, hbuf⟩
    · exact Or.inr ⟨a, b, hrest, hpromotes, hbuf⟩
  · rintro (⟨b, hb, hpromotes, hbuf⟩ | ⟨a, b, hrest, hpromotes, hbuf⟩)
    · exact ⟨c, b, pair_infix_cons.mpr (Or.inl ⟨rfl, hb⟩), hpromotes, hbuf⟩
    · exact ⟨a, b, pair_infix_cons.mpr (Or.inr hrest), hpromotes, hbuf⟩

theorem promotedFrom_cons_of_noKey {c buf : Bytes} {cs : List Bytes} (hc : ¬∃ offset, KeyAt c offset) :
    PromotedFrom (c :: cs) buf ↔ PromotedFrom cs buf := by
  rw [promotedFrom_cons]
  refine or_iff_right ?_
  rintro ⟨b, -, hpromotes, -⟩
  exact hc hpromotes.key

/-- With blocks that are long except for the last, a buffer that is promoted comes from two blocks. -/
theorem mem_promotions_iff {chunks : List Bytes} (hlong : ∀ c d, [c, d] <:+: chunks → 32768 < c.length) (buf : Bytes) :
    (buf ∈ promotions [] chunks ↔ PromotedFrom chunks buf) ∧
    ∀ a, (∃ offset, KeyAt a offset) → (buf ∈ promotions (trimmed a) chunks ↔ PromotedFrom (a :: chunks) buf) := by
  induction chunks with
  | nil =>
    refine ⟨iff_of_false List.not_mem_nil (promotedFrom_nil buf), fun a _ => iff_of_false List.not_mem_nil ?_⟩
    rw [promotedFrom_cons]
    rintro (⟨b, hb, -, -⟩ | hnil)
    · cases hb
    · exact promotedFrom_nil buf hnil
  | cons c cs ih =>
    obtain ⟨hempty, hheld⟩ := ih fun x y hxy => hlong x y (pair_infix_cons.mpr (Or.inr hxy))
    constructor
    · by_cases hc : ∃ offset, KeyAt c offset
      · rw [promotions, keyframeStep_key hc]
        exact hheld c hc
      · rw [promotions, keyframeStep_empty hc, promotedFrom_cons_of_noKey hc]
        exact hempty
    · intro a ha
      by_cases hc : ∃ offset, KeyAt c offset
      · -- the buffer starts again with this block
        rw [promotions, keyframeStep_key hc, promotedFrom_cons]
        refine (hheld c hc).trans (or_iff_right ?_).symm
        rintro ⟨b, hb, hpromotes, -⟩
        exact hpromotes.noKey (Option.some.inj hb ▸ hc)
      rw [promotedFrom_cons, promotedFrom_cons_of_noKey hc]
      by_cases hbuf : 32768 < (trimmed a ++ c).length
      · rw [promotions, keyframeStep_long hc (trimmed_ne_nil ha) hbuf, Option.toList_some, List.mem_append,
          List.mem_singleton, hempty]
        refine or_congr_left ⟨fun h => ⟨c, rfl, ⟨ha, hc, hbuf⟩, h⟩, ?_⟩
        rintro ⟨b, hb, -, h⟩
        rw [h, ← Option.some.inj hb]
      · -- too short: this was the last block
        obtain rfl : cs = [] := by
          cases cs with
          | nil => rfl
          | cons d cs =>
            have hfull := hlong c d (pair_infix_cons.mpr (Or.inl ⟨rfl, rfl⟩))
            rw [List.length_append] at hbuf
            omega
        rw [promotions, keyframeStep_short hc (trimmed_ne_nil ha) hbuf]
        refine iff_of_false List.not_mem_nil ?_
        rintro (⟨b, hb, hpromotes, -⟩ | hnil)
        · exact hbuf (Option.some.inj hb ▸ hpromotes.long)
        · exact promotedFrom_nil buf hnil

end Promotions

section Bootstrap

theorem nalAt_iff_take {data : Bytes} {offset : ℕ} {type : UInt8} :
    NalAt data offset type ↔ ∃ header, (data.drop offset).take 5 = startCode ++ [header] ∧ nalType header = type := by
  have hget : data.getD (offset + 4) 0 = (data.drop offset).getD 4 0 := by
    rw [List.getD_eq_getElem?_getD, List.getD_eq_getElem?_getD, List.getElem?_drop]
  have hlength : offset + 4 < data.length ↔ 4 < (data.drop offset).length := by
    rw [List.length_drop]
    omega
  rw [NalAt, hget, hlength]
  generalize data.drop offset = tail
  constructor
  · rintro ⟨⟨rest, rfl⟩, hrest, htype⟩
    cases rest with
    | nil => exact absurd hrest (by decide)
    | cons header rest => exact ⟨header, rfl, htype⟩
  · rintro ⟨header, htake, htype⟩
    rw [← List.take_append_drop 5 tail, htake]
    exact ⟨⟨_, List.append_assoc .. |>.symm⟩, by simp [startCode], htype⟩

theorem nalAt_trimmed {a : Bytes} (ha : ∃ offset, KeyAt a offset) (b : Bytes) (type : UInt8) :
    NalAt (trimmed a ++ b) 0 type ↔ NalAt a (spsPos a) type := by
  have hlt := (keyAt_iff.mp (spsPos_spec ha).1).2.1
  have htake : (trimmed a ++ b).take 5 = (a.drop (spsPos a)).take 5 := by
    rw [trimmed, List.take_append_of_le_length]
    rw [List.length_drop]
    omega
  rw [nalAt_iff_take, nalAt_iff_take, List.drop_zero, htake]

theorem nalAt_patched (buf : Bytes) (type : UInt8) : NalAt (patched buf) 0 type ↔ NalAt buf 0 type := by
  by_cases hsps : BeginsSps buf
  · -- the first start code has three bytes, before and after
    rw [patched_sps hsps]
    obtain ⟨header, p, c, l, rest, rfl, -⟩ := exists_of_beginsSps hsps
    refine iff_of_false ?_ ?_
    · rintro ⟨⟨tail, htail⟩, -, -⟩
      cases htail
    · rintro ⟨⟨tail, htail⟩, -, -⟩
      cases htail
  · cases buf with
    | nil => rw [patched_nil]
    | cons b rest =>
      rw [patched_cons hsps, nalAt_iff_take, nalAt_iff_take, List.drop_zero, List.drop_zero, List.take_succ_cons,
        List.take_succ_cons, patched_take rest le_rfl]

theorem nalAt_bootstrap (patch : Bool) (buf : Bytes) (type : UInt8) :
    NalAt (bootstrap patch buf) 0 type ↔ NalAt buf 0 type := by
  rw [bootstrap, patchSps_eq]
  split_ifs
  · exact nalAt_patched buf type
  · rfl

theorem spsPos_is_sps_iff {a : Bytes} (ha : ∃ offset, KeyAt a offset) :
    NalAt a (spsPos a) 7 ↔ ∀ p, NalAt a p 5 → ∃ q < p, NalAt a q 7 := by
  obtain ⟨hkey, hfirst⟩ := spsPos_spec ha
  constructor
  · intro hsps p hidr
    refine ⟨spsPos a, ?_, hsps⟩
    have hle : spsPos a ≤ p := not_lt.mp fun hlt => hfirst p hlt (Or.inl hidr)
    refine lt_of_le_of_ne hle ?_
    rintro rfl
    exact absurd (hsps.2.2.symm.trans hidr.2.2) (by decide)
  · intro h
    rcases hkey with hidr | hsps
    · obtain ⟨q, hq, hsps⟩ := h _ hidr
      exact absurd (Or.inr hsps) (hfirst q hq)
    · exact hsps

end Bootstrap

section Ports

variable {stream : Bytes} {events : List Event}

def promotedBuffers (events : List Event) : List Bytes := (({} : Mux).run events).channels.flatMap Channel.promoted

theorem promotedBuffers_eq (events : List Event) : promotedBuffers events =
    (promotions [] (events.filterMap Event.chunk?)).map (bootstrap false) ++
      (promotions [] (events.filterMap Event.chunk?)).map (bootstrap true) := by
  have hpromoted := congrArg (List.flatMap History.promoted) (history_run {} events)
  rw [List.flatMap_map] at hpromoted
  change promotedBuffers events = _ ++ (_ ++ []) at hpromoted
  rw [hpromoted, List.append_nil]
  rfl

theorem forall_promotedBuffers_iff (hread : events.filterMap Event.chunk? = blocks bufsize stream) :
    (∀ buf ∈ promotedBuffers events, NalAt buf 0 7) ↔ ∀ buf, PromotedFrom (blocks bufsize stream) buf → NalAt buf 0 7 := by
  have hmem (buf : Bytes) : buf ∈ promotions [] (blocks bufsize stream) ↔ PromotedFrom (blocks bufsize stream) buf := by
    refine (mem_promotions_iff (fun c d hpair => ?_) buf).1
    rw [length_of_pair_infix_blocks hpair]
    decide
  rw [promotedBuffers_eq, hread, List.forall_mem_append, List.forall_mem_map, List.forall_mem_map]
  simp only [nalAt_bootstrap, hmem, and_self]

/-- The keyframes that new clients are sent all begin with an SPS iff in every block that is promoted
each IDR has an SPS in front of it. -/
theorem keyframes_begin_with_sps_iff (stream : Bytes) (events : List Event)
    (hread : events.filterMap Event.chunk? = blocks bufsize stream) :
    (∀ buf ∈ promotedBuffers events, NalAt buf 0 7) ↔
      ∀ a b, [a, b] <:+: blocks bufsize stream → Promotes a b → ∀ p, NalAt a p 5 → ∃ q < p, NalAt a q 7 := by
  rw [forall_promotedBuffers_iff hread]
  constructor
  · intro h a b hpair hpromotes
    have hbuf := h _ ⟨a, b, hpair, hpromotes, rfl⟩
    exact (spsPos_is_sps_iff hpromotes.key).mp ((nalAt_trimmed hpromotes.key b 7).mp hbuf)
  · rintro h buf ⟨a, b, hpair, hpromotes, rfl⟩
    exact (nalAt_trimmed hpromotes.key b 7).mpr ((spsPos_is_sps_iff hpromotes.key).mpr (h a b hpair hpromotes))

end Ports

section Groups

structure Nal where
  header : UInt8
  body : Bytes

def annexB (nals : List Nal) : Bytes := nals.flatMap fun nal => startCode ++ nal.header :: nal.body

def Nal.Clean (nal : Nal) : Prop := ∀ z ≤ 2, ¬[0, 0, z] <:+: nal.header :: nal.body

def IdrsPreceded (nals : List Nal) : Prop :=
  ∀ front idr rest, nals = front ++ idr :: rest → nalType idr.header = 5 →
    ∃ before sps pps, front = before ++ [sps, pps] ∧ nalType sps.header = 7 ∧ nalType pps.header = 8

def filler (n : ℕ) : Bytes := List.replicate n 0xFF

variable (n : ℕ)

theorem length_filler : (filler n).length = n := List.length_replicate

theorem filler_succ : filler (n + 1) = filler n ++ [0xFF] := List.replicate_succ'

theorem clean_of_no_zero {nal : Nal} (h : ∀ b ∈ nal.header :: nal.body, b ≠ 0) : nal.Clean := by
  rintro z - hpair
  exact h 0 (hpair.subset List.mem_cons_self) rfl

def sps : Nal := ⟨0x67, [0x42, 0x80, 0x29, 0x8C]⟩

def pps : Nal := ⟨0x68, [0xCE]⟩

def idr (n : ℕ) : Nal := ⟨0x65, filler n⟩

theorem length_annexB_cons (nal : Nal) (nals : List Nal) :
    (annexB (nal :: nals)).length = 5 + nal.body.length + (annexB nals).length := by
  simp only [annexB, List.flatMap_cons, List.length_append, List.length_cons, startCode, List.length_nil]
  omega

def splitGroup : List Nal := [⟨0x41, filler (bufsize - 20)⟩, sps, pps, idr (bufsize - 4)]

theorem idrsPreceded_splitGroup : IdrsPreceded splitGroup := by
  intro front nal rest hsplit hidr
  rcases front with _ | ⟨x, _ | ⟨y, _ | ⟨z, _ | ⟨w, front⟩⟩⟩⟩
  · obtain ⟨rfl, -⟩ := List.cons.inj hsplit
    exact absurd hidr (by decide)
  · obtain ⟨rfl, -⟩ := List.cons.inj (List.cons.inj hsplit).2
    exact absurd hidr (by decide)
  · obtain ⟨rfl, -⟩ := List.cons.inj (List.cons.inj (List.cons.inj hsplit).2).2
    exact absurd hidr (by decide)
  · obtain ⟨hy, htail⟩ := List.cons.inj (List.cons.inj hsplit).2
    obtain ⟨hz, -⟩ := List.cons.inj htail
    rw [← hy, ← hz]
    exact ⟨[x], sps, pps, rfl, by decide, by decide⟩
  · have hlength := congrArg List.length hsplit
    simp only [splitGroup, List.length_cons, List.length_nil, List.length_append] at hlength
    omega

theorem clean_splitGroup : ∀ nal ∈ splitGroup, nal.Clean := by
  have hfiller (n : ℕ) : ∀ b ∈ filler n, b ≠ 0 := by
    intro b hb
    rw [List.eq_of_mem_replicate hb]
    decide
  intro nal hnal
  apply clean_of_no_zero
  rcases List.mem_cons.mp hnal with rfl | hnal
  · exact List.forall_mem_cons.mpr ⟨by decide, hfiller _⟩
  rcases List.mem_cons.mp hnal with rfl | hnal
  · simp [sps]
  rcases List.mem_cons.mp hnal with rfl | hnal
  · simp [pps]
  rw [List.mem_singleton.mp hnal]
  exact List.forall_mem_cons.mpr ⟨by decide, hfiller _⟩

def idrBlock : Bytes := annexB [idr (bufsize - 5)]

-- lengths are computed with a variable, so that no list of 64 KiB is ever unfolded
theorem length_annexB_idr : (annexB [idr n]).length = n + 5 := by
  have hempty : (annexB []).length = 0 := rfl
  rw [length_annexB_cons, idr, length_filler, hempty]
  omega

theorem length_annexB_slice : (annexB [⟨0x41, filler n⟩, sps, pps]).length = n + 20 := by
  have hsets : (annexB [sps, pps]).length = 15 := rfl
  rw [length_annexB_cons, length_filler, hsets]
  omega

theorem length_annexB_group : (annexB [sps, pps, idr n]).length = n + 20 := by
  have hbodies : sps.body.length = 4 ∧ pps.body.length = 1 := ⟨rfl, rfl⟩
  rw [length_annexB_cons, length_annexB_cons, length_annexB_idr, hbodies.1, hbodies.2]
  omega

theorem length_idrBlock : idrBlock.length = bufsize := length_annexB_idr (bufsize - 5)

theorem annexB_append (front rest : List Nal) : annexB (front ++ rest) = annexB front ++ annexB rest := List.flatMap_append

theorem annexB_idr_succ : annexB [idr (n + 1)] = annexB [idr n] ++ [0xFF] := by
  simp only [annexB, idr, filler_succ, List.flatMap_cons, List.flatMap_nil, List.append_nil, List.append_assoc,
    List.cons_append]

theorem blocks_splitGroup :
    blocks bufsize (annexB splitGroup) = [annexB [⟨0x41, filler (bufsize - 20)⟩, sps, pps], idrBlock, [0xFF]] := by
  have hbytes : annexB splitGroup = annexB [⟨0x41, filler (bufsize - 20)⟩, sps, pps] ++ (idrBlock ++ [0xFF]) := by
    rw [idrBlock, ← annexB_idr_succ]
    exact annexB_append [⟨0x41, filler (bufsize - 20)⟩, sps, pps] [idr (bufsize - 4)]
  have hfirst : (annexB [⟨0x41, filler (bufsize - 20)⟩, sps, pps]).length = bufsize := length_annexB_slice (bufsize - 20)
  rw [hbytes, blocks_append (by decide) hfirst, blocks_append (by decide) length_idrBlock,
    blocks_short (by decide) (by decide)]

theorem nalAt_idrBlock : NalAt idrBlock 0 5 := nalAt_iff_take.mpr ⟨0x65, rfl, by decide⟩

theorem promotes_idrBlock : Promotes idrBlock [0xFF] := by
  refine ⟨⟨0, Or.inl nalAt_idrBlock⟩, ?_, ?_⟩
  · rintro ⟨offset, hkey⟩
    have hlt := (keyAt_iff.mp hkey).2.1
    rw [List.length_singleton] at hlt
    omega
  · have hpos : spsPos idrBlock = 0 := by
      by_contra hne
      exact (spsPos_spec ⟨0, Or.inl nalAt_idrBlock⟩).2 0 (Nat.pos_of_ne_zero hne) (Or.inl nalAt_idrBlock)
    rw [trimmed, hpos, List.drop_zero, List.length_append, length_idrBlock]
    decide

/-- The keyframe begins with the IDR, and its SPS and PPS are lost. -/
theorem split_group_promotes_idr :
    IdrsPreceded splitGroup ∧ (∀ nal ∈ splitGroup, nal.Clean) ∧
    ¬∀ buf ∈ promotedBuffers ((blocks bufsize (annexB splitGroup)).map .block), NalAt buf 0 7 := by
  refine ⟨idrsPreceded_splitGroup, clean_splitGroup, fun hall => ?_⟩
  have hread : ((blocks bufsize (annexB splitGroup)).map Event.block).filterMap Event.chunk? =
      blocks bufsize (annexB splitGroup) := by
    rw [List.filterMap_map]
    exact List.filterMap_some
  have hpair : [idrBlock, [0xFF]] <:+: blocks bufsize (annexB splitGroup) := by
    rw [blocks_splitGroup]
    exact (List.suffix_cons _ _).isInfix
  have hbuf := (forall_promotedBuffers_iff hread).mp hall _ ⟨idrBlock, [0xFF], hpair, promotes_idrBlock, rfl⟩
  obtain ⟨q, hq, -⟩ := (spsPos_is_sps_iff promotes_idrBlock.key).mp
    ((nalAt_trimmed promotes_idrBlock.key [0xFF] 7).mp hbuf) 0 nalAt_idrBlock
  exact absurd hq (Nat.not_lt_zero q)

def wholeGroup : List Nal := [sps, pps, idr (bufsize - 20)]

theorem whole_group_promotes_sps :
    blocks bufsize (annexB wholeGroup ++ [0xFF]) = [annexB wholeGroup, [0xFF]] ∧
    ∀ buf ∈ promotedBuffers [.accept 0, .block (annexB wholeGroup), .join 0, .block [0xFF]], NalAt buf 0 7 := by
  have hlength : (annexB wholeGroup).length = bufsize := length_annexB_group (bufsize - 20)
  have hblocks : blocks bufsize (annexB wholeGroup ++ [0xFF]) = [annexB wholeGroup, [0xFF]] := by
    rw [blocks_append (by decide) hlength, blocks_short (by decide) (by decide)]
  have hsps : NalAt (annexB wholeGroup) 0 7 := nalAt_iff_take.mpr ⟨0x67, rfl, by decide⟩
  refine ⟨hblocks, (keyframes_begin_with_sps_iff (annexB wholeGroup ++ [0xFF])
    [.accept 0, .block (annexB wholeGroup), .join 0, .block [0xFF]] hblocks.symm).mpr ?_⟩
  rw [hblocks]
  intro a b hpair _ p hidr
  rcases pair_infix_cons.mp hpair with ⟨rfl, -⟩ | hlast
  · refine ⟨0, Nat.pos_of_ne_zero ?_, hsps⟩
    rintro rfl
    exact absurd (hsps.2.2.symm.trans hidr.2.2) (by decide)
  · exact absurd hlast.length_le (by simp)

end Groups

end PiBuddyCam.Stream
