import PiBuddyCam.StreamModel

/-! `patch_sps` as one pass over the bytes, and what it misses when the stream comes in blocks. -/
namespace PiBuddyCam.Stream

open ByteSearch

def BeginsSps (data : Bytes) : Prop := [0, 0, 1] <+: data ∧ 6 < data.length ∧ nalType (data.getD 3 0) = 7

instance (data : Bytes) : Decidable (BeginsSps data) := inferInstanceAs (Decidable (_ ∧ _ ∧ _))

/-- One pass over the bytes: an SPS is rewritten and skipped. -/
def patched : Bytes → Bytes
  | [] => []
  | b :: rest =>
    if BeginsSps (b :: rest) then (b :: rest).take 4 ++ (spsFields ++ patched (rest.drop 6))
    else b :: patched rest
termination_by data => data.length

section Pass

theorem patched_nil : patched [] = [] := by rw [patched]

variable {rest : Bytes}

theorem patched_cons {b : UInt8} (h : ¬BeginsSps (b :: rest)) : patched (b :: rest) = b :: patched rest := by
  rw [patched, if_neg h]

theorem patched_sps {data : Bytes} (h : BeginsSps data) :
    patched data = data.take 4 ++ (spsFields ++ patched (data.drop 7)) := by
  cases data with
  | nil => exact absurd h.2.1 (by simp)
  | cons b rest => rw [patched, if_pos h, List.drop_succ_cons]

theorem pass_induction {motive : Bytes → Prop} (nil : motive [])
    (sps : ∀ data, BeginsSps data → motive (data.drop 7) → motive data)
    (cons : ∀ b rest, ¬BeginsSps (b :: rest) → motive rest → motive (b :: rest)) (data : Bytes) : motive data := by
  induction hn : data.length using Nat.strong_induction_on generalizing data with
  | h n ih =>
    by_cases h : BeginsSps data
    · apply sps data h
      apply ih (data.drop 7).length _ _ rfl
      have hlength := h.2.1
      rw [List.length_drop]
      omega
    · cases data with
      | nil => exact nil
      | cons b rest =>
        apply cons b rest h
        apply ih rest.length _ rest rfl
        rw [List.length_cons] at hn
        omega

theorem not_beginsSps_of_head {b : UInt8} (hb : b ≠ 0) : ¬BeginsSps (b :: rest) := by
  intro h
  obtain ⟨tail, htail⟩ := h.1
  exact hb (List.cons.inj htail).1.symm

theorem not_beginsSps_of_second {b c : UInt8} (hc : c ≠ 0) : ¬BeginsSps (b :: c :: rest) := by
  intro h
  obtain ⟨tail, htail⟩ := h.1
  exact hc (List.cons.inj (List.cons.inj htail).2).1.symm

theorem header_ne_zero {h : UInt8} (hh : nalType h = 7) : h ≠ 0 := by
  rintro rfl
  exact absurd hh (by decide)

theorem exists_of_beginsSps {data : Bytes} (h : BeginsSps data) :
    ∃ header p c l rest, data = 0 :: 0 :: 1 :: header :: p :: c :: l :: rest ∧ nalType header = 7 := by
  obtain ⟨⟨tail, rfl⟩, hlength, htype⟩ := h
  have htail : 3 < tail.length := by
    rw [List.length_append] at hlength
    simp only [List.length_cons, List.length_nil] at hlength
    omega
  rcases tail with _ | ⟨header, _ | ⟨p, _ | ⟨c, _ | ⟨l, rest⟩⟩⟩⟩
  · exact absurd htail (by simp)
  · exact absurd htail (by simp)
  · exact absurd htail (by simp)
  · exact absurd htail (by simp)
  · exact ⟨header, p, c, l, rest, rfl, htype⟩

theorem beginsSps_cons {header p c l : UInt8} (h : nalType header = 7) :
    BeginsSps (0 :: 0 :: 1 :: header :: p :: c :: l :: rest) :=
  ⟨⟨_, rfl⟩, by simp only [List.length_cons]; omega, h⟩

theorem length_patched (data : Bytes) : (patched data).length = data.length := by
  induction data using pass_induction with
  | nil => rw [patched_nil]
  | sps data h ih =>
    obtain ⟨header, p, c, l, rest, rfl, -⟩ := exists_of_beginsSps h
    rw [patched_sps h, List.length_append, List.length_append, ih]
    simp only [List.take, List.drop, List.length_cons, List.length_nil, spsFields]
    omega
  | cons b rest h ih => rw [patched_cons h, List.length_cons, List.length_cons, ih]

end Pass

section Loop

variable {data : Bytes}

theorem patched_of_no_start {d : ℕ} (h : ∀ e < d, ¬[0, 0, 1] <+: data.drop e) :
    patched data = data.take d ++ patched (data.drop d) := by
  induction d generalizing data with
  | zero => rfl
  | succ d ih =>
    cases data with
    | nil => rw [patched_nil, List.take_nil, List.drop_nil, patched_nil]; rfl
    | cons b rest =>
      have hhead : ¬BeginsSps (b :: rest) := fun hsps => h 0 (Nat.succ_pos d) hsps.1
      rw [patched_cons hhead, ih fun e he => h (e+1) (Nat.succ_lt_succ he)]
      rfl

theorem patched_eq_self_of_no_start (h : ∀ e, ¬[0, 0, 1] <+: data.drop e) : patched data = data := by
  have hall := patched_of_no_start (d := data.length) fun e _ => h e
  rwa [List.take_length, List.drop_length, patched_nil, List.append_nil] at hall

def patchHead (data : Bytes) : Bytes := if BeginsSps data then data.take 4 ++ (spsFields ++ data.drop 7) else data

theorem patchAt_append (front : Bytes) (hstart : [0, 0, 1] <+: data) :
    patchAt (front ++ data) (front.length + 3) = front ++ patchHead data := by
  have hlength : front.length + 3 + 3 < (front ++ data).length ↔ 6 < data.length := by
    rw [List.length_append]
    omega
  have hheader : (front ++ data).getD (front.length + 3) 0 = data.getD 3 0 := by
    rw [List.getD_eq_getElem?_getD, List.getElem?_append_right (Nat.le_add_right _ _), Nat.add_sub_cancel_left,
      List.getD_eq_getElem?_getD]
  have hset (n : ℕ) (x : UInt8) (tail : Bytes) : (front ++ tail).set (front.length + n) x = front ++ tail.set n x := by
    rw [List.set_append_right _ _ (Nat.le_add_right _ _), Nat.add_sub_cancel_left]
  rw [patchAt, patchHead]
  by_cases hsps : BeginsSps data
  · rw [if_pos hsps, if_pos ⟨hlength.mpr hsps.2.1, hheader ▸ hsps.2.2⟩]
    obtain ⟨header, p, c, l, rest, rfl, -⟩ := exists_of_beginsSps hsps
    rw [setFields, Nat.add_assoc, Nat.add_assoc, Nat.add_assoc, hset, hset, hset]
    rfl
  · rw [if_neg hsps, if_neg fun h => hsps ⟨hstart, hlength.mp h.1, hheader ▸ h.2⟩]

/-- A round of the loop at the start code that it found: the array up to the header is final,
and the pass goes on at the header. -/
theorem patched_round (hstart : [0, 0, 1] <+: data) :
    patched data = (patchHead data).take 3 ++ patched ((patchHead data).drop 3) := by
  rw [patchHead]
  by_cases hsps : BeginsSps data
  · rw [if_pos hsps, patched_sps hsps]
    obtain ⟨header, p, c, l, rest, rfl, hheader⟩ := exists_of_beginsSps hsps
    have hbehind : patched (header :: 0x42 :: 0xE0 :: 0x1F :: rest) = header :: 0x42 :: 0xE0 :: 0x1F :: patched rest := by
      rw [patched_cons (not_beginsSps_of_head (header_ne_zero hheader)), patched_cons (not_beginsSps_of_head (by decide)),
        patched_cons (not_beginsSps_of_head (by decide)), patched_cons (not_beginsSps_of_head (by decide))]
    change _ = [0, 0, 1] ++ patched (header :: 0x42 :: 0xE0 :: 0x1F :: rest)
    rw [hbehind]
    rfl
  · rw [if_neg hsps]
    obtain ⟨rest, rfl⟩ := hstart
    have hhead : ¬BeginsSps (0 :: 0 :: 1 :: rest) := hsps
    change patched (0 :: 0 :: 1 :: rest) = 0 :: 0 :: 1 :: patched rest
    rw [patched_cons hhead, patched_cons (not_beginsSps_of_second (by decide)), patched_cons (not_beginsSps_of_head (by decide))]

theorem patchFrom_eq (out : Bytes) (i : ℕ) : patchFrom out i = out.take i ++ patched (out.drop i) := by
  fun_induction patchFrom out i with
  | case1 out i hfind =>
    have hnone := Option.map_eq_none_iff.mp hfind
    rw [patched_eq_self_of_no_start (not_isPrefix_drop_of_first_eq_none hnone), List.take_append_drop]
  | case2 out i j hfind ih =>
    have hbounds := bounds_of_find (by simp) hfind
    have hstart := isPrefix_drop_of_find hfind
    obtain ⟨d, hd, rfl⟩ := Option.map_eq_some_iff.mp hfind
    have hfront : (out.take (i + d)).length = i + d := List.length_take_of_le ((Nat.le_add_right _ _).trans hbounds.2)
    have hround := patchAt_append (out.take (i + d)) hstart
    rw [hfront, List.take_append_drop] at hround
    have hskip := patched_of_no_start fun e he => not_isPrefix_drop_of_lt_first hd he
    rw [List.drop_drop] at hskip
    have htake : (out.take (i + d) ++ patchHead (out.drop (i + d))).take (i + d + 3) =
        out.take (i + d) ++ (patchHead (out.drop (i + d))).take 3 := by
      rw [List.take_append, hfront, Nat.add_sub_cancel_left, List.take_of_length_le (hfront.le.trans (Nat.le_add_right _ 3))]
    have hdrop : (out.take (i + d) ++ patchHead (out.drop (i + d))).drop (i + d + 3) =
        (patchHead (out.drop (i + d))).drop 3 := by
      rw [← List.drop_drop, List.drop_left' hfront]
    calc patchFrom (patchAt out (i + d + 3)) (i + d + 3)
        = out.take (i + d) ++ ((patchHead (out.drop (i + d))).take 3 ++ patched ((patchHead (out.drop (i + d))).drop 3)) := by
          rw [ih, hround, htake, hdrop, List.append_assoc]
      _ = out.take (i + d) ++ patched (out.drop (i + d)) := by rw [← patched_round hstart]
      _ = out.take i ++ ((out.drop i).take d ++ patched (out.drop (i + d))) := by rw [List.take_add, List.append_assoc]
      _ = out.take i ++ patched (out.drop i) := by rw [hskip]

theorem patchSps_eq (data : Bytes) : patchSps data = patched data := patchFrom_eq data 0

end Loop

/-- An SPS that `patch_sps` rewrites: where its start code is, and the three bytes behind its header. -/
structure SpsNal where
  pos : ℕ
  fields : Bytes

/-- The SPS NALs of the data, which lies at `pos` of the stream. -/
def spsNals (pos : ℕ) : Bytes → List SpsNal
  | [] => []
  | b :: rest =>
    if BeginsSps (b :: rest) then ⟨pos, (rest.drop 3).take 3⟩ :: spsNals (pos + 7) (rest.drop 6)
    else spsNals (pos + 1) rest
termination_by data => data.length

def SpsNal.Straddles (n : ℕ) (sps : SpsNal) : Prop := sps.pos/n ≠ (sps.pos + 6)/n

instance (n : ℕ) (sps : SpsNal) : Decidable (sps.Straddles n) := inferInstanceAs (Decidable (_ ≠ _))

section Blocks

variable {n : ℕ} (pos : ℕ)

theorem spsNals_nil : spsNals pos [] = [] := by rw [spsNals]

theorem spsNals_cons {b : UInt8} {rest : Bytes} (h : ¬BeginsSps (b :: rest)) :
    spsNals pos (b :: rest) = spsNals (pos + 1) rest := by
  rw [spsNals, if_neg h]

variable {data : Bytes}

theorem spsNals_sps (h : BeginsSps data) :
    spsNals pos data = ⟨pos, (data.drop 4).take 3⟩ :: spsNals (pos + 7) (data.drop 7) := by
  cases data with
  | nil => exact absurd h.2.1 (by simp)
  | cons b rest => rw [spsNals, if_pos h, List.drop_succ_cons, List.drop_succ_cons]

def patchedTail (n r : ℕ) (data : Bytes) : Bytes :=
  patched (data.take r) ++ (blocks n (data.drop r)).flatMap patched

theorem patchedTail_nil (n r : ℕ) : patchedTail n r [] = [] := by
  rw [patchedTail, List.take_nil, List.drop_nil, blocks_nil, patched_nil]
  rfl

theorem patchedTail_zero (n : ℕ) (data : Bytes) : patchedTail n 0 data = (blocks n data).flatMap patched := by
  rw [patchedTail, List.take_zero, List.drop_zero, patched_nil, List.nil_append]

theorem patchedTail_next (hn : 0 < n) (data : Bytes) : patchedTail n n data = patchedTail n 0 data := by
  rw [patchedTail_zero]
  cases data with
  | nil =>
    rw [patchedTail_nil, blocks_nil]
    rfl
  | cons b rest =>
    rw [patchedTail, blocks_of_ne_nil hn.ne' (List.cons_ne_nil b rest)]
    rfl

variable {r : ℕ}

theorem patchedTail_cons {b : UInt8} {rest : Bytes} (h : ¬BeginsSps ((b :: rest).take (r+1))) :
    patchedTail n (r+1) (b :: rest) = b :: patchedTail n r rest := by
  rw [List.take_succ_cons] at h
  rw [patchedTail, List.take_succ_cons, List.drop_succ_cons, patched_cons h]
  rfl

theorem beginsSps_take (hr : 7 ≤ r) (h : BeginsSps data) : BeginsSps (data.take r) := by
  obtain ⟨header, p, c, l, rest, rfl, hheader⟩ := exists_of_beginsSps h
  obtain ⟨r, rfl⟩ := Nat.exists_eq_add_of_le' hr
  exact beginsSps_cons hheader

theorem beginsSps_of_take (h : BeginsSps (data.take r)) : BeginsSps data := by
  obtain ⟨header, p, c, l, rest, htake, hheader⟩ := exists_of_beginsSps h
  rw [← List.take_append_drop r data, htake]
  exact beginsSps_cons hheader

theorem not_beginsSps_take (hr : r < 7) : ¬BeginsSps (data.take r) := by
  intro h
  have hlength := h.2.1
  rw [List.length_take] at hlength
  omega

theorem patchedTail_sps (h : BeginsSps data) (hr : 7 ≤ r) :
    patchedTail n r data = data.take 4 ++ (spsFields ++ patchedTail n (r - 7) (data.drop 7)) := by
  have htake : (data.take r).take 4 = data.take 4 := by rw [List.take_take, Nat.min_eq_left (by omega)]
  have hdrop : (data.take r).drop 7 = (data.drop 7).take (r - 7) := List.drop_take
  have hrest : data.drop r = (data.drop 7).drop (r - 7) := by rw [List.drop_drop, Nat.add_sub_cancel' hr]
  rw [patchedTail, patchedTail, patched_sps (beginsSps_take hr h), htake, hdrop, hrest, List.append_assoc, List.append_assoc]

def blockwise (n pos : ℕ) (data : Bytes) : Bytes := patchedTail n (n - pos%n) data

theorem mod_add {pos k : ℕ} (hn : 0 < n) (hk : k ≤ n - pos%n) : (pos + k)%n = if k = n - pos%n then 0 else pos%n + k := by
  have hlt := Nat.mod_lt pos hn
  have hsplit : (pos + k)%n = (pos%n + k)%n := (Nat.mod_add_mod pos n k).symm
  rw [hsplit]
  split_ifs with heq
  · rw [show pos%n + k = n by omega, Nat.mod_self]
  · exact Nat.mod_eq_of_lt (by omega)

theorem blockwise_add {pos k : ℕ} (hn : 0 < n) (hk : k ≤ n - pos%n) (data : Bytes) :
    blockwise n (pos + k) data = patchedTail n (n - pos%n - k) data := by
  rw [blockwise, mod_add hn hk]
  split_ifs with heq
  · rw [Nat.sub_zero, patchedTail_next hn, heq, Nat.sub_self]
  · rw [Nat.sub_sub]

theorem blockwise_zero (hn : 0 < n) (data : Bytes) : blockwise n 0 data = (blocks n data).flatMap patched := by
  rw [blockwise, Nat.zero_mod, Nat.sub_zero, patchedTail_next hn, patchedTail_zero]

theorem blockwise_nil : blockwise n pos [] = [] := patchedTail_nil n _

variable {pos : ℕ}

theorem blockwise_cons (hn : 0 < n) {b : UInt8} {rest : Bytes} (h : ¬BeginsSps ((b :: rest).take (n - pos%n))) :
    blockwise n pos (b :: rest) = b :: blockwise n (pos + 1) rest := by
  have hlt := Nat.mod_lt pos hn
  obtain ⟨r, hr⟩ : ∃ r, n - pos%n = r + 1 := ⟨n - pos%n - 1, by omega⟩
  rw [hr] at h
  rw [blockwise_add hn (by omega), blockwise, hr, patchedTail_cons h]
  rfl

theorem blockwise_sps (hn : 0 < n) (h : BeginsSps data) (hleft : 7 ≤ n - pos%n) :
    blockwise n pos data = data.take 4 ++ (spsFields ++ blockwise n (pos + 7) (data.drop 7)) := by
  rw [blockwise_add hn hleft, blockwise, patchedTail_sps h hleft]

theorem blockwise_cut (hn : 7 ≤ n) {header p c l : UInt8} {rest : Bytes} (hheader : nalType header = 7)
    (hcut : n - pos%n < 7) :
    blockwise n pos (0 :: 0 :: 1 :: header :: p :: c :: l :: rest) =
      0 :: 0 :: 1 :: header :: blockwise n (pos + 4) (p :: c :: l :: rest) := by
  have hpos : 0 < n := by omega
  rw [blockwise_cons hpos (not_beginsSps_take hcut),
    blockwise_cons hpos fun h => not_beginsSps_of_second (by decide) (beginsSps_of_take h),
    blockwise_cons hpos fun h => not_beginsSps_of_head (by decide) (beginsSps_of_take h),
    blockwise_cons hpos fun h => not_beginsSps_of_head (header_ne_zero hheader) (beginsSps_of_take h)]

theorem patched_take (data : Bytes) {k : ℕ} (hk : k ≤ 4) : (patched data).take k = data.take k := by
  induction data using pass_induction generalizing k with
  | nil => rw [patched_nil]
  | sps data h ih =>
    have hlength : k ≤ (data.take 4).length := by
      have hdata := h.2.1
      rw [List.length_take]
      omega
    rw [patched_sps h, List.take_append_of_le_length hlength, List.take_take, Nat.min_eq_left hk]
  | cons b rest h ih =>
    cases k with
    | zero => rfl
    | succ k => rw [patched_cons h, List.take_succ_cons, List.take_succ_cons, ih (by omega)]

theorem patchedTail_take_of_le {k r : ℕ} (hk : k ≤ 4) (hr : k ≤ r) (data : Bytes) :
    (patchedTail n r data).take k = data.take k := by
  rcases Nat.le_total r data.length with hlength | hlength
  · have hfirst : k ≤ (patched (data.take r)).length := by
      rw [length_patched, List.length_take_of_le hlength]
      exact hr
    rw [patchedTail, List.take_append_of_le_length hfirst, patched_take _ hk, List.take_take, Nat.min_eq_left hr]
  · rw [patchedTail, List.take_of_length_le hlength, List.drop_of_length_le hlength, blocks_nil, List.flatMap_nil,
      List.append_nil, patched_take _ hk]

theorem patchedTail_take (hn : 4 ≤ n) {k : ℕ} (hk : k ≤ 4) (r : ℕ) (data : Bytes) :
    (patchedTail n r data).take k = data.take k := by
  rcases Nat.le_total k r with hr | hr
  · exact patchedTail_take_of_le hk hr data
  have hfirst : patched (data.take r) = data.take r := by
    have htake := patched_take (data.take r) (hr.trans hk)
    rwa [List.take_take, Nat.min_self, List.take_of_length_le] at htake
    rw [length_patched]
    exact List.length_take_le r data
  have hnext : ((blocks n (data.drop r)).flatMap patched).take (k - r) = (data.drop r).take (k - r) := by
    rw [← patchedTail_zero, ← patchedTail_next (by omega)]
    exact patchedTail_take_of_le (by omega) (by omega) _
  rcases Nat.le_total r data.length with hlength | hlength
  · rw [patchedTail, hfirst, List.take_append, List.length_take_of_le hlength, hnext,
      List.take_of_length_le ((List.length_take_le r data).trans hr), ← List.take_add, Nat.add_sub_cancel' hr]
  · rw [patchedTail, hfirst, List.drop_of_length_le hlength, blocks_nil, List.flatMap_nil, List.append_nil,
      List.take_of_length_le hlength]

theorem straddles_iff (hn : 7 ≤ n) (pos : ℕ) (fields : Bytes) : (SpsNal.mk pos fields).Straddles n ↔ n - pos%n < 7 := by
  have hdiv : (pos + 6)/n = pos/n + (pos%n + 6)/n := by
    have hpos := Nat.div_add_mod pos n
    calc (pos + 6)/n = (n*(pos/n) + (pos%n + 6))/n := by rw [← Nat.add_assoc, hpos]
      _ = pos/n + (pos%n + 6)/n := Nat.mul_add_div (by omega) _ _
  have hzero : (pos%n + 6)/n = 0 ↔ pos%n + 6 < n := by
    rw [Nat.div_eq_zero_iff]
    omega
  change pos/n ≠ (pos + 6)/n ↔ n - pos%n < 7
  rw [hdiv]
  omega

theorem blockwise_cut_eq_iff (hn : 7 ≤ n) (h : BeginsSps data) (hcut : n - pos%n < 7) :
    blockwise n pos data = data.take 4 ++ (spsFields ++ patched (data.drop 7)) ↔
      (data.drop 4).take 3 = spsFields ∧ blockwise n (pos + 7) (data.drop 7) = patched (data.drop 7) := by
  have hpos : 0 < n := by omega
  obtain ⟨header, p, c, l, rest, rfl, hheader⟩ := exists_of_beginsSps h
  rw [blockwise_cut hn hheader hcut]
  change _ = [0, 0, 1, header] ++ (spsFields ++ patched rest) ↔ [p, c, l] = spsFields ∧ blockwise n (pos + 7) rest = patched rest
  by_cases hfields : [p, c, l] = spsFields
  · obtain ⟨rfl, rfl, rfl⟩ : p = 0x42 ∧ c = 0xE0 ∧ l = 0x1F := by simpa [spsFields] using hfields
    have hthrough {b : UInt8} (hb : b ≠ 0) (at' : ℕ) (tail : Bytes) :
        blockwise n at' (b :: tail) = b :: blockwise n (at' + 1) tail :=
      blockwise_cons hpos fun htake => not_beginsSps_of_head hb (beginsSps_of_take htake)
    rw [hthrough (by decide), hthrough (by decide), hthrough (by decide), and_iff_right hfields]
    change [0, 0, 1, header] ++ (spsFields ++ blockwise n (pos + 7) rest) = _ ↔ _
    rw [List.append_cancel_left_eq, List.append_cancel_left_eq]
  · refine iff_of_false (fun heq => hfields ?_) fun hboth => hfields hboth.1
    have htail : blockwise n (pos + 4) (p :: c :: l :: rest) = spsFields ++ patched rest :=
      List.append_cancel_left (show [0, 0, 1, header] ++ _ = [0, 0, 1, header] ++ _ from heq)
    have hkept : (blockwise n (pos + 4) (p :: c :: l :: rest)).take 3 = [p, c, l] :=
      patchedTail_take (by omega) (by omega) _ _
    rw [← hkept, htail]
    rfl

/-- Block by block is the same as all at once iff every SPS across two blocks has the wanted bytes already. -/
theorem blockwise_eq_iff (hn : 7 ≤ n) (pos : ℕ) (data : Bytes) :
    blockwise n pos data = patched data ↔ ∀ sps ∈ spsNals pos data, sps.Straddles n → sps.fields = spsFields := by
  have hpos : 0 < n := by omega
  induction data using pass_induction generalizing pos with
  | nil =>
    rw [blockwise_nil, patched_nil, spsNals_nil]
    exact iff_of_true rfl fun sps hsps => absurd hsps List.not_mem_nil
  | sps data h ih =>
    have hrest : _ ↔ _ := ih (pos + 7)
    rw [spsNals_sps pos h, List.forall_mem_cons, ← hrest, straddles_iff hn, patched_sps h]
    by_cases hcut : n - pos%n < 7
    · rw [forall_prop_of_true hcut]
      exact blockwise_cut_eq_iff hn h hcut
    · rw [blockwise_sps hpos h (by omega), List.append_cancel_left_eq, List.append_cancel_left_eq]
      exact (and_iff_right fun hlt => absurd hlt hcut).symm
  | cons b rest h ih =>
    have hrest : _ ↔ _ := ih (pos + 1)
    rw [spsNals_cons pos h, ← hrest, patched_cons h, blockwise_cons hpos fun htake => h (beginsSps_of_take htake)]
    exact ⟨fun heq => (List.cons.inj heq).2, fun heq => congrArg _ heq⟩

end Blocks

section Spec

theorem beginsSps_of_patched {data : Bytes} (h : BeginsSps (patched data)) : BeginsSps data := by
  have hlength : 6 < data.length := length_patched data ▸ h.2.1
  obtain ⟨header, p, c, l, rest, heq, hheader⟩ := exists_of_beginsSps h
  have hfront : [0, 0, 1, header] = data.take 4 := by
    rw [← patched_take data le_rfl, heq]
    rfl
  have hdata : data = 0 :: 0 :: 1 :: header :: data.drop 4 := by
    conv_lhs => rw [← List.take_append_drop 4 data, ← hfront]
    rfl
  refine ⟨⟨header :: data.drop 4, hdata.symm⟩, hlength, ?_⟩
  rw [hdata]
  exact hheader

theorem patched_sps_cons {header p c l : UInt8} {rest : Bytes} (h : nalType header = 7) :
    patched (0 :: 0 :: 1 :: header :: p :: c :: l :: rest) = 0 :: 0 :: 1 :: header :: 0x42 :: 0xE0 :: 0x1F :: patched rest :=
  patched_sps (beginsSps_cons h)

/-- An SPS of the patched data carries the fields: the patch makes up no start code, as none of the bytes
it writes is zero. -/
theorem fields_of_patched (data : Bytes) (e : ℕ) (h : BeginsSps ((patched data).drop e)) :
    ((patched data).drop (e+4)).take 3 = spsFields := by
  induction data using pass_induction generalizing e with
  | nil =>
    rw [patched_nil, List.drop_nil] at h
    exact absurd h (by decide)
  | sps data hsps ih =>
    obtain ⟨header, p, c, l, rest, rfl, hheader⟩ := exists_of_beginsSps hsps
    rw [patched_sps_cons hheader] at h ⊢
    obtain _ | _ | _ | _ | _ | _ | _ | e := e
    · rfl
    · exact absurd h (not_beginsSps_of_second (by decide))
    · exact absurd h (not_beginsSps_of_head (by decide))
    · exact absurd h (not_beginsSps_of_head (header_ne_zero hheader))
    · exact absurd h (not_beginsSps_of_head (by decide))
    · exact absurd h (not_beginsSps_of_head (by decide))
    · exact absurd h (not_beginsSps_of_head (by decide))
    · exact ih e h
  | cons b rest hb ih =>
    cases e with
    | zero => exact absurd (beginsSps_of_patched h) hb
    | succ e =>
      rw [patched_cons hb] at h ⊢
      exact ih e h

theorem patched_eq_self {data : Bytes} (h : ∀ e, BeginsSps (data.drop e) → (data.drop (e+4)).take 3 = spsFields) :
    patched data = data := by
  induction data using pass_induction with
  | nil => exact patched_nil
  | sps data hsps ih =>
    have hrest := ih fun e he => by
      rw [List.drop_drop] at he ⊢
      exact Nat.add_assoc 7 e 4 ▸ h (7+e) he
    have hfields := h 0 hsps
    obtain ⟨header, p, c, l, rest, rfl, hheader⟩ := exists_of_beginsSps hsps
    rw [patched_sps_cons hheader]
    change patched rest = rest at hrest
    change [p, c, l] = [0x42, 0xE0, 0x1F] at hfields
    obtain ⟨rfl, rfl, rfl⟩ : p = 0x42 ∧ c = 0xE0 ∧ l = 0x1F := by simpa using hfields
    rw [hrest]
  | cons b rest hb ih => rw [patched_cons hb, ih fun e he => h (e+1) he]

theorem beginsSps_of_getElem?_patched_ne (data : Bytes) (i : ℕ) (h : (patched data)[i]? ≠ data[i]?) :
    ∃ e, BeginsSps (data.drop e) ∧ e+4 ≤ i ∧ i < e+7 := by
  induction data using pass_induction generalizing i with
  | nil => exact absurd (congrArg (·[i]?) patched_nil) h
  | sps data hsps ih =>
    obtain ⟨header, p, c, l, rest, rfl, hheader⟩ := exists_of_beginsSps hsps
    rw [patched_sps_cons hheader] at h
    obtain _ | _ | _ | _ | i := i
    · exact absurd rfl h
    · exact absurd rfl h
    · exact absurd rfl h
    · exact absurd rfl h
    · by_cases hi : i < 3
      · exact ⟨0, hsps, by omega, by omega⟩
      · obtain ⟨i, rfl⟩ := Nat.exists_eq_add_of_le' (not_lt.mp hi)
        obtain ⟨e, he, hlow, hhigh⟩ := ih i h
        exact ⟨e+7, he, by omega, by omega⟩
  | cons b rest hb ih =>
    rw [patched_cons hb] at h
    cases i with
    | zero => exact absurd rfl h
    | succ i =>
      obtain ⟨e, he, hlow, hhigh⟩ := ih i h
      exact ⟨e+1, he, by omega, by omega⟩

/-- What `patch_sps` does to any bytes. -/
theorem patchSps_spec (data : Bytes) :
    (patchSps data).length = data.length ∧ patchSps (patchSps data) = patchSps data ∧
      (∀ i, (patchSps data)[i]? ≠ data[i]? → ∃ e, BeginsSps (data.drop e) ∧ e+4 ≤ i ∧ i < e+7) ∧
      ∀ e, BeginsSps ((patchSps data).drop e) → ((patchSps data).drop (e+4)).take 3 = spsFields := by
  rw [patchSps_eq, patchSps_eq]
  exact ⟨length_patched data, patched_eq_self (fields_of_patched data), beginsSps_of_getElem?_patched_ne data,
    fields_of_patched data⟩

end Spec

end PiBuddyCam.Stream
