import PiBuddyCam.StreamPatch

/-! Runs of the mux: whatever the clients do in between, what a port broadcasts and what it is
given as keyframes depends on the blocks alone. -/
namespace PiBuddyCam.Stream

open ByteSearch

def promotions : Bytes → List Bytes → List Bytes
  | _, [] => []
  | kfBuf, chunk :: chunks => (keyframeStep kfBuf chunk).2.toList ++ promotions (keyframeStep kfBuf chunk).1 chunks

/-- The part of a port that its clients have no hand in. -/
structure History where
  patch : Bool
  sent : List Bytes
  promoted : List Bytes

def Channel.history (ch : Channel) : History := ⟨ch.patch, ch.sent, ch.promoted⟩

def History.extend (kfBuf : Bytes) (chunks : List Bytes) (h : History) : History where
  patch := h.patch
  sent := h.sent ++ chunks.map (outgoing h.patch)
  promoted := h.promoted ++ (promotions kfBuf chunks).map (bootstrap h.patch)

section Runs

theorem map_modify {α β : Type} (l : List α) (i : ℕ) {f : α → α} {g : α → β} (h : ∀ a, g (f a) = g a) :
    (l.modify i f).map g = l.map g := by
  induction l generalizing i with
  | nil => rw [List.modify_nil]
  | cons a l ih =>
    cases i with
    | zero => rw [List.modify_zero_cons, List.map_cons, List.map_cons, h]
    | succ i => rw [List.modify_succ_cons, List.map_cons, List.map_cons, ih]

theorem history_join (ch : Channel) : ch.join.history = ch.history := by
  rw [Channel.join]
  split <;> rfl

theorem step_of_chunk_eq_none {e : Event} (h : e.chunk? = none) (m : Mux) :
    (m.step e).kfBuf = m.kfBuf ∧ (m.step e).channels.map Channel.history = m.channels.map Channel.history := by
  cases e with
  | block chunk => cases h
  | accept port => exact ⟨rfl, map_modify _ _ fun ch => rfl⟩
  | join port => exact ⟨rfl, map_modify _ _ history_join⟩
  | send port client => exact ⟨rfl, map_modify _ _ fun ch => rfl⟩
  | leave port client => exact ⟨rfl, map_modify _ _ fun ch => rfl⟩

theorem history_block (m : Mux) (chunk : Bytes) :
    (m.block chunk).channels.map Channel.history = (m.channels.map Channel.history).map (History.extend m.kfBuf [chunk]) := by
  rw [Mux.block, List.map_map, List.map_map]
  apply List.map_congr_left
  intro ch _
  rw [Function.comp_apply, Function.comp_apply, History.extend, promotions, promotions, List.append_nil]
  cases (keyframeStep m.kfBuf chunk).2 with
  | none =>
    rw [Option.toList_none, List.map_nil, List.append_nil]
    rfl
  | some buf => rfl

theorem extend_cons (kfBuf chunk : Bytes) (chunks : List Bytes) (h : History) :
    (h.extend kfBuf [chunk]).extend (keyframeStep kfBuf chunk).1 chunks = h.extend kfBuf (chunk :: chunks) := by
  simp only [History.extend, promotions, List.append_nil, List.map_append, List.append_assoc, List.map_cons, List.map_nil,
    List.cons_append, List.nil_append]

theorem history_run (m : Mux) (events : List Event) :
    (m.run events).channels.map Channel.history =
      (m.channels.map Channel.history).map (History.extend m.kfBuf (events.filterMap Event.chunk?)) := by
  induction events generalizing m with
  | nil =>
    have hnil : History.extend m.kfBuf [] = id := by
      funext h
      rw [History.extend, promotions, List.map_nil, List.map_nil, List.append_nil, List.append_nil]
      rfl
    rw [List.filterMap_nil, hnil, List.map_id]
    rfl
  | cons e events ih =>
    have hrun : m.run (e :: events) = (m.step e).run events := rfl
    cases hchunk : e.chunk? with
    | none =>
      obtain ⟨hkf, hhistory⟩ := step_of_chunk_eq_none hchunk m
      rw [hrun, ih, hkf, hhistory, List.filterMap_cons_none hchunk]
    | some chunk =>
      obtain rfl : e = .block chunk := by
        cases e with
        | block chunk' => rw [Option.some.inj hchunk]
        | accept port => cases hchunk
        | join port => cases hchunk
        | send port client => cases hchunk
        | leave port client => cases hchunk
      have hstep : (m.step (.block chunk)).kfBuf = (keyframeStep m.kfBuf chunk).1 := rfl
      rw [hrun, ih, hstep, List.filterMap_cons_some hchunk]
      change List.map _ ((m.block chunk).channels.map Channel.history) = _
      rw [history_block, List.map_map]
      exact congrArg (fun f => List.map f _) (funext fun h => extend_cons m.kfBuf chunk _ h)

end Runs

section SecondPort

variable {stream : Bytes} {events : List Event}

def secondPortSent (events : List Event) : Option Bytes :=
  (({} : Mux).run events).channels[1]?.map fun ch => ch.sent.flatten

theorem secondPortSent_eq (hread : events.filterMap Event.chunk? = blocks bufsize stream) :
    secondPortSent events = some (blockwise bufsize 0 stream) := by
  have hhistory := history_run {} events
  rw [hread] at hhistory
  have hsecond := congrArg (fun l => Option.map (fun h : History => h.sent.flatten) l[1]?) hhistory
  simp only [List.getElem?_map, Option.map_map] at hsecond
  have houtgoing : outgoing true = patched := funext fun data => patchSps_eq data
  calc secondPortSent events
      = some ((blocks bufsize stream).map (outgoing true)).flatten := hsecond
    _ = some (blockwise bufsize 0 stream) := by
        rw [houtgoing, blockwise_zero (by decide), List.flatMap_def]

/-- The second port is sent what `patch_sps` makes of the whole stream iff every SPS that lies
across two blocks has the wanted profile and level anyway. -/
theorem second_port_patched_iff (stream : Bytes) (events : List Event)
    (hread : events.filterMap Event.chunk? = blocks bufsize stream) :
    secondPortSent events = some (patchSps stream) ↔
      ∀ sps ∈ spsNals 0 stream, sps.Straddles bufsize → sps.fields = spsFields := by
  rw [secondPortSent_eq hread, Option.some_inj, patchSps_eq]
  exact blockwise_eq_iff (by decide) 0 stream

def spsFirst : Bytes := [0, 0, 0, 1, 0x27, 0x42, 0x80, 0x29, 0x8C]

theorem spsNals_spsFirst (pos : ℕ) : spsNals pos spsFirst = [⟨pos + 1, [0x42, 0x80, 0x29]⟩] := by
  rw [spsFirst, spsNals_cons pos (by decide), spsNals_sps (pos + 1) (by decide)]
  change _ :: spsNals (pos + 1 + 7) [0x8C] = _
  rw [spsNals_cons _ (by decide), spsNals_nil]
  rfl

theorem sps_first_patched :
    [Event.accept 1, .block spsFirst, .join 1].filterMap Event.chunk? = blocks bufsize spsFirst ∧
    secondPortSent [.accept 1, .block spsFirst, .join 1] = some (patchSps spsFirst) := by
  have hread : [Event.accept 1, .block spsFirst, .join 1].filterMap Event.chunk? = blocks bufsize spsFirst := by
    rw [blocks_of_ne_nil (by decide) (by decide)]
    change [spsFirst] = spsFirst :: blocks bufsize []
    rw [blocks_nil]
  refine ⟨hread, (second_port_patched_iff spsFirst _ hread).mpr fun sps hsps hcut => ?_⟩
  rw [spsNals_spsFirst, List.mem_singleton] at hsps
  rw [hsps] at hcut
  exact absurd hcut (by decide)

theorem spsNals_replicate (k pos : ℕ) (data : Bytes) :
    spsNals pos (List.replicate k 0xFF ++ data) = spsNals (pos + k) data := by
  induction k generalizing pos with
  | zero => rfl
  | succ k ih =>
    rw [List.replicate_succ, List.cons_append, spsNals_cons pos (not_beginsSps_of_head (by decide)), ih]
    congr 1
    omega

def spsAcrossBlocks : Bytes := 0 :: 0 :: 0 :: 1 :: 0x41 :: (List.replicate (bufsize - 12) 0xFF ++ spsFirst)

theorem spsNals_spsAcrossBlocks : spsNals 0 spsAcrossBlocks = [⟨bufsize - 6, [0x42, 0x80, 0x29]⟩] := by
  have hslice (tail : Bytes) : ¬BeginsSps (0 :: 0 :: 1 :: 0x41 :: tail) := by
    intro h
    have htype : nalType 0x41 = 7 := h.2.2
    exact absurd htype (by decide)
  have hzero (tail : Bytes) : ¬BeginsSps (0 :: 0 :: 0 :: tail) := by
    intro h
    obtain ⟨rest, hrest⟩ := h.1
    exact absurd (List.cons.inj (List.cons.inj (List.cons.inj hrest).2).2).1 (by decide)
  rw [spsAcrossBlocks, spsNals_cons 0 (hzero _), spsNals_cons _ (hslice _), spsNals_cons _ (not_beginsSps_of_second (by decide)),
    spsNals_cons _ (not_beginsSps_of_head (by decide)), spsNals_cons _ (not_beginsSps_of_head (by decide)),
    spsNals_replicate, spsNals_spsFirst]
  rfl

theorem sps_across_blocks_not_patched :
    secondPortSent ((blocks bufsize spsAcrossBlocks).map .block) ≠ some (patchSps spsAcrossBlocks) := by
  have hread : ((blocks bufsize spsAcrossBlocks).map Event.block).filterMap Event.chunk? = blocks bufsize spsAcrossBlocks := by
    rw [List.filterMap_map]
    exact List.filterMap_some
  intro heq
  rw [secondPortSent_eq hread, Option.some_inj, patchSps_eq] at heq
  have h := (blockwise_eq_iff (by decide) 0 spsAcrossBlocks).mp heq
  rw [spsNals_spsAcrossBlocks] at h
  exact absurd (h _ (List.mem_singleton_self _) (by decide)) (by decide)

end SecondPort

end PiBuddyCam.Stream
