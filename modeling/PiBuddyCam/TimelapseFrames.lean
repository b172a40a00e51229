import Mathlib.Data.List.Lex
import Mathlib.Data.List.Sort
import Mathlib.Data.NNRat.Floor
import Mathlib.Data.Set.Finite.Basic
import Mathlib.Data.String.Basic
import PiBuddyCam.OrderedDict

/-! The names under which `app/timelapse.py` stores the frames, and the order in which the video
is built from them. -/
namespace PiBuddyCam.Timelapse

abbrev Name := List Char

/-- What a stamp shows of `time.localtime`. -/
structure LocalTime where
  hour : Fin 24
  min : Fin 60
  sec : Fin 62
  deriving DecidableEq

def padded (width n : ℕ) : List Char := (Nat.toDigits 10 n).leftpad width '0'

/-- `_millis`, with `now` as a number rather than a float. -/
def millis (now : ℚ≥0) : ℕ := ⌊(now - ⌊now⌋₊) * 1000000⌋₊ / 1000

def stamp (tm : LocalTime) (ms : ℕ) : List Char :=
  padded 2 tm.hour ++ '-' :: (padded 2 tm.min ++ '-' :: (padded 2 tm.sec ++ '-' :: padded 3 ms))

def framePrefix : List Char := "timelapse_".toList

def frameSuffix : List Char := ".jpg".toList

def stamped (tm : LocalTime) (ms : ℕ) : Name := framePrefix ++ (stamp tm ms ++ frameSuffix)

section Order

theorem digitChar_lt_iff {m n : ℕ} (hm : m < 10) (hn : n < 10) :
    (m.digitChar < n.digitChar ↔ m < n) ∧ (m.digitChar = n.digitChar ↔ m = n) := by
  have hall : ∀ m n : Fin 10, (m.val.digitChar < n.val.digitChar ↔ m.val < n.val) ∧
      (m.val.digitChar = n.val.digitChar ↔ m.val = n.val) := by decide +kernel
  exact hall ⟨m, hm⟩ ⟨n, hn⟩

theorem padded_two {n : ℕ} (hn : n < 100) : padded 2 n = [(n/10).digitChar, (n%10).digitChar] := by
  have hall : ∀ n : Fin 100, padded 2 n.val = [(n.val/10).digitChar, (n.val%10).digitChar] := by decide +kernel
  exact hall ⟨n, hn⟩

theorem padded_three {n : ℕ} (hn : n < 1000) :
    padded 3 n = [(n/100).digitChar, (n/10%10).digitChar, (n%10).digitChar] := by
  have hall : ∀ n : Fin 1000,
      padded 3 n.val = [(n.val/100).digitChar, (n.val/10%10).digitChar, (n.val%10).digitChar] := by decide +kernel
  exact hall ⟨n, hn⟩

theorem padded_two_lt_iff {m n : ℕ} (hm : m < 100) (hn : n < 100) (l l' : List Char) :
    padded 2 m ++ l < padded 2 n ++ l' ↔ m < n ∨ m = n ∧ l < l' := by
  have hhigh := digitChar_lt_iff (m := m/10) (n := n/10) (by omega) (by omega)
  have hlow := digitChar_lt_iff (m := m%10) (n := n%10) (by omega) (by omega)
  rw [padded_two hm, padded_two hn]
  simp only [List.cons_append, List.nil_append, List.cons_lt_cons_iff, hhigh, hlow]
  by_cases hl : l < l' <;> simp only [hl, and_true, and_false, or_false] <;> omega

theorem padded_three_lt {m n : ℕ} (hmn : m < n) (hn : n < 1000) (l l' : List Char) :
    padded 3 m ++ l < padded 3 n ++ l' := by
  have hhigh := digitChar_lt_iff (m := m/100) (n := n/100) (by omega) (by omega)
  have hmid := digitChar_lt_iff (m := m/10%10) (n := n/10%10) (by omega) (by omega)
  have hlow := digitChar_lt_iff (m := m%10) (n := n%10) (by omega) (by omega)
  rw [padded_three (by omega), padded_three hn]
  simp only [List.cons_append, List.nil_append, List.cons_lt_cons_iff, hhigh, hmid, hlow]
  omega

theorem padded_injective (width : ℕ) : Function.Injective (padded width) := by
  intro m n h
  have hvalue (n : ℕ) : Nat.ofDigitChars 10 (padded width n) 0 = n := by
    have hzeros (k : ℕ) : Nat.ofDigitChars 10 (List.replicate k '0') 0 = 0 := by
      induction k with
      | zero => rfl
      | succ k ih => rw [List.replicate_succ, Nat.ofDigitChars_cons]; exact ih
    rw [padded, List.leftpad, Nat.ofDigitChars_append, hzeros, Nat.ofDigitChars_ten_toDigits]
  rw [← hvalue m, h, hvalue]

/-- The digits of a stamp up to the seconds. -/
def LocalTime.number (tm : LocalTime) : ℕ := (tm.hour*100 + tm.min)*100 + tm.sec

theorem LocalTime.number_injective : Function.Injective number := by
  rintro ⟨h, m, s⟩ ⟨h', m', s'⟩ hnumber
  simp only [number] at hnumber
  have hhour : h = h' := by omega
  have hmin : m = m' := by omega
  have hsec : s = s' := by omega
  rw [hhour, hmin, hsec]

theorem stamped_lt_iff (tm tm' : LocalTime) (ms ms' : ℕ) : stamped tm ms < stamped tm' ms' ↔
    tm.number < tm'.number ∨ tm = tm' ∧ padded 3 ms ++ frameSuffix < padded 3 ms' ++ frameSuffix := by
  have hdash (c : Char) (l l' : List Char) : c :: l < c :: l' ↔ l < l' := by simp
  have hbegin (p l l' : List Char) : p ++ l < p ++ l' ↔ l < l' := by
    induction p with
    | nil => rfl
    | cons c p ih => rw [List.cons_append, List.cons_append, hdash, ih]
  have hsame : tm = tm' ↔ tm.number = tm'.number := LocalTime.number_injective.eq_iff.symm
  simp only [stamped, stamp, List.append_assoc, List.cons_append, hbegin, hsame]
  rw [padded_two_lt_iff (by omega) (by omega), hdash, padded_two_lt_iff (by omega) (by omega), hdash,
    padded_two_lt_iff (by omega) (by omega), hdash]
  simp only [LocalTime.number]
  by_cases hl : padded 3 ms ++ frameSuffix < padded 3 ms' ++ frameSuffix <;>
    simp only [hl, and_true, and_false, or_false] <;> omega

theorem stamped_injective {tm tm' : LocalTime} {ms ms' : ℕ} (h : stamped tm ms = stamped tm' ms') :
    tm = tm' ∧ ms = ms' := by
  have hnot : ¬stamped tm ms < stamped tm' ms' := h ▸ List.lt_irrefl _
  have hnot' : ¬stamped tm' ms' < stamped tm ms := h ▸ List.lt_irrefl _
  rw [stamped_lt_iff, not_or] at hnot hnot'
  have htm : tm = tm' := LocalTime.number_injective (le_antisymm (not_lt.mp hnot'.1) (not_lt.mp hnot.1))
  subst htm
  simp only [stamped, stamp, List.append_assoc, List.cons_append, List.append_cancel_left_eq, List.cons.injEq,
    true_and, List.append_cancel_right_eq] at h
  exact ⟨rfl, padded_injective 3 h⟩

end Order

section Bumping

/-- Frame `n` shows the reading `r n` and the millisecond `o n`, and it gets the first millisecond from
there on that no earlier frame with its reading has. -/
structure Bumped (r o a : ℕ → ℕ) : Prop where
  le : ∀ n, o n ≤ a n
  ne : ∀ i n, i < n → r i = r n → a i ≠ a n
  filled : ∀ n k, o n ≤ k → k < a n → ∃ i < n, r i = r n ∧ a i = k

def Ordered (r a : ℕ → ℕ) (n : ℕ) : Prop := ∀ i j, i < j → j < n → r i < r j ∨ r i = r j ∧ a i < a j

/-- The reading never goes back, a frame and those behind it in the same second do not run out of
milliseconds, and a frame whose millisecond is before an earlier one's comes while the ones in a row
before that are already past both. -/
structure Orderly (r o : ℕ → ℕ) (n : ℕ) : Prop where
  forward : ∀ i j, i < j → j < n → r i ≤ r j
  room : ∀ i j, i ≤ j → j < n → r i = r j → o i + (j-i) < 1000
  late : ∀ i j, i < j → j < n → r i = r j → o j < o i → ∃ h < i, r h = r i ∧ o h ≤ o j ∧ o i ≤ o h + (i-h)

variable {r o a : ℕ → ℕ} {n : ℕ}

theorem Ordered.forward (h : Ordered r a n) (i j : ℕ) (hij : i ≤ j) (hj : j < n) : r i ≤ r j := by
  obtain rfl | hij := hij.eq_or_lt
  · exact le_rfl
  · obtain hlt | ⟨heq, -⟩ := h i j hij hj
    · exact hlt.le
    · exact heq.le

theorem Ordered.spread (h : Ordered r a n) {i j : ℕ} (hij : i ≤ j) (hj : j < n) (hr : r i = r j) :
    a i + (j-i) ≤ a j := by
  induction j, hij using Nat.le_induction with
  | base => omega
  | succ j hij ih =>
    -- the frames in between show the same reading
    have hfirst := h.forward i j hij (by omega)
    have hstep := h j (j+1) (by omega) hj
    have := ih (by omega) (by omega)
    omega

theorem Ordered.start (h : Ordered r a n) (hb : Bumped r o a) (j : ℕ) (hj : j < n) :
    ∃ i ≤ j, r i = r j ∧ a i = o i ∧ a j = o i + (j-i) := by
  induction j using Nat.strong_induction_on with
  | _ j ih =>
    obtain heq | hlt := (hb.le j).eq_or_lt
    · exact ⟨j, le_rfl, rfl, heq.symm, by omega⟩
    · obtain ⟨k, hkj, hrk, hk⟩ := hb.filled j (a j - 1) (by omega) (by omega)
      obtain ⟨i, hik, hri, hi, hrow⟩ := ih k hkj (by omega)
      have := h.spread hkj.le hj hrk
      exact ⟨i, by omega, hri.trans hrk, hi, by omega⟩

theorem Ordered.row (h : Ordered r a n) {k i : ℕ} (hki : k ≤ i) (hi : i < n) (hr : r k = r i)
    (hused : ∀ v, a k ≤ v → v < a i → ∃ m < n, r m = r i ∧ a m = v) : a i ≤ a k + (i-k) := by
  induction i, hki using Nat.le_induction with
  | base => omega
  | succ i hki ih =>
    have hfirst := h.forward k i hki (by omega)
    have hlast := h.forward i (i+1) (by omega) hi
    have hri : r i = r (i+1) := by omega
    have hstep := h.spread (i := i) (j := i+1) (by omega) hi hri
    have hrow := ih (by omega) (by omega) fun v hv hvi => hri ▸ hused v hv (by omega)
    have hbelow := h.spread hki (by omega) (by omega)
    by_contra hgap
    -- the millisecond after that of `i` is no frame's: those up to `i` come before it, the others after
    obtain ⟨m, hm, hrm, hv⟩ := hused (a i + 1) (by omega) (by omega)
    obtain hmi | him := Nat.lt_or_ge i m
    · have := h.spread (i := i+1) (j := m) hmi hm hrm.symm
      omega
    · have := h.spread him (by omega) (hrm.trans hri.symm)
      omega

theorem Ordered.orderly (h : Ordered r a n) (hb : Bumped r o a) (hroom : ∀ i < n, a i < 1000) : Orderly r o n where
  forward i j hij hj := h.forward i j hij.le hj
  room i j hij hj hr := by
    have := h.spread hij hj hr
    have := hb.le i
    have := hroom j hj
    omega
  late i j hij hj hr hlate := by
    have hi := hb.le i
    have hspread := h.spread hij.le hj hr
    -- the millisecond of `j` was taken before that of `i`, by a frame of the same row
    obtain ⟨k, hkj, hrk, hk⟩ := hb.filled j (o j) le_rfl (by omega)
    have hki : k < i := by
      by_contra hik
      have := h.spread (not_lt.mp hik) (by omega) (hr.trans hrk.symm)
      omega
    have hrow := h.row hki.le (by omega) (hrk.trans hr.symm) fun v hv hvi => by
      obtain ⟨m, hmj, hrm, hm⟩ := hb.filled j v (by omega) (by omega)
      exact ⟨m, by omega, hrm.trans hr.symm, hm⟩
    obtain ⟨s, hsk, hrs, hs, hstart⟩ := h.start hb k (by omega)
    exact ⟨s, by omega, by omega, by omega, by omega⟩

theorem Ordered.hit (h : Ordered r a n) {p e b v : ℕ} (hpe : p ≤ e) (he : e < n) (hr : r p = r e) (hbp : b ≤ a p)
    (htight : a e ≤ b + (e-p)) (hbv : b ≤ v) (hve : v ≤ a e) : ∃ q ≤ e, r q = r e ∧ a q = v := by
  obtain ⟨q, hq⟩ : ∃ q, q = p + (v-b) := ⟨_, rfl⟩
  have hbefore := h.forward p q (by omega) (by omega)
  have hafter := h.forward q e (by omega) he
  have hfirst := h.spread (i := p) (j := q) (by omega) (by omega) (by omega)
  have hlast := h.spread (i := q) (j := e) (by omega) he (by omega)
  exact ⟨q, by omega, by omega, by omega⟩

theorem Orderly.step (h : Orderly r o n) (hb : Bumped r o a) {m : ℕ} (hm : m < n) (hord : Ordered r a m) {i : ℕ}
    (him : i < m) (hr : r i = r m) : a i < a m := by
  obtain ⟨l, rfl⟩ : ∃ l, m = l+1 := ⟨m-1, by omega⟩
  have hil := hord.forward i l (by omega) (by omega)
  have hlm := h.forward l (l+1) (by omega) hm
  have hspread := hord.spread (i := i) (j := l) (by omega) (by omega) (by omega)
  have hown := hb.le (l+1)
  by_contra hback
  obtain ⟨s, hsl, hrs, hs, hrow⟩ := hord.start hb l (by omega)
  -- the new frame's millisecond is in the row of the last frame, or else in the one before
  have htaken : ∃ q ≤ l, r q = r (l+1) ∧ a q = a (l+1) := by
    by_cases hin : o s ≤ a (l+1)
    · obtain ⟨q, hq, hrq, hv⟩ := hord.hit hsl (by omega) hrs hs.ge hrow.le hin (by omega)
      exact ⟨q, hq, by omega, hv⟩
    · obtain ⟨k, hks, hrk, hk, hrow'⟩ := h.late s (l+1) (by omega) hm (by omega) (by omega)
      obtain ⟨q, hq, hrq, hv⟩ :=
        hord.hit (v := a (l+1)) hks.le (by omega) hrk (hb.le k) (by omega) (by omega) (by omega)
      exact ⟨q, by omega, by omega, hv⟩
  obtain ⟨q, hq, hrq, hv⟩ := htaken
  exact hb.ne q (l+1) (by omega) hrq hv

theorem Orderly.ordered (h : Orderly r o n) (hb : Bumped r o a) : Ordered r a n ∧ ∀ i < n, a i < 1000 := by
  have hall : ∀ m ≤ n, Ordered r a m := by
    intro m
    induction m with
    | zero => exact fun _ i j _ hj => absurd hj (Nat.not_lt_zero j)
    | succ m ih =>
      intro hm i j hij hj
      have hord := ih (by omega)
      obtain hjm | rfl := (Nat.lt_succ_iff.mp hj).lt_or_eq
      · exact hord i j hij hjm
      · obtain hlt | heq := (h.forward i j hij hm).lt_or_eq
        · exact Or.inl hlt
        · exact Or.inr ⟨heq, h.step hb hm hord hij heq⟩
  have hord := hall n le_rfl
  refine ⟨hord, fun i hi => ?_⟩
  obtain ⟨s, hs, hrs, -, hrow⟩ := hord.start hb i hi
  have := h.room s i hs hi hrs
  omega

end Bumping

section Frames

variable {β : Type} (zone : ℕ → LocalTime)

theorem exists_free (folder : OrderedDict Name β) (tm : LocalTime) (ms : ℕ) :
    ∃ k, stamped tm (ms+k) ∉ folder.keys := by
  have hinjective : Function.Injective fun k => stamped tm (ms+k) := by
    intro k k' hk
    have := (stamped_injective hk).2
    omega
  obtain ⟨name, ⟨k, rfl⟩, hfree⟩ :=
    (Set.infinite_range_of_injective hinjective).exists_notMem_finset folder.keys.toFinset
  exact ⟨k, fun hk => hfree (List.mem_toFinset.mpr hk)⟩

/-- The loop of `_unique_name`, where `os.path.exists` is asked of one millisecond after the other. -/
def freeMillis (folder : OrderedDict Name β) (tm : LocalTime) (ms : ℕ) : ℕ := ms + Nat.find (exists_free folder tm ms)

def uniqueName (folder : OrderedDict Name β) (now : ℚ≥0) : Name :=
  stamped (zone ⌊now⌋₊) (freeMillis folder (zone ⌊now⌋₊) (millis now))

/-- `save_frame`. Opening the path for writing would empty a file that is there. -/
def saveFrame (folder : OrderedDict Name β) (data : β) (now : ℚ≥0) : OrderedDict Name β :=
  folder.set (uniqueName zone folder now) data

/-- `list_frames` of what `os.listdir` yields. -/
def listFrames (names : List Name) : List Name :=
  (names.filter fun n => framePrefix.isPrefixOf n && frameSuffix.isSuffixOf n).insertionSort (· ≤ ·)

variable (data : ℕ → β) (now : ℕ → ℚ≥0)

/-- The folder after the first frames of a recording. -/
def frames : ℕ → OrderedDict Name β
  | 0 => .empty
  | n+1 => saveFrame zone (frames n) (data n) (now n)

def path (n : ℕ) : Name := uniqueName zone (frames zone data now n) (now n)

def given (n : ℕ) : ℕ := freeMillis (frames zone data now n) (zone ⌊now n⌋₊) (millis (now n))

variable (n : ℕ)

theorem path_notMem : path zone data now n ∉ (frames zone data now n).keys :=
  Nat.find_spec (exists_free (frames zone data now n) (zone ⌊now n⌋₊) (millis (now n)))

theorem entries_frames :
    (frames zone data now n).entries = (List.range n).map fun i => (path zone data now i, data i) := by
  induction n with
  | zero => rfl
  | succ n ih =>
    have hfree := ((frames zone data now n).get?_eq_none_iff _).mpr (path_notMem zone data now n)
    have hset : frames zone data now (n+1) = (frames zone data now n).set (path zone data now n) (data n) := rfl
    rw [hset, OrderedDict.entries_set_of_notMem _ _ hfree, ih, List.range_succ, List.map_append, List.map_singleton]

theorem keys_frames : (frames zone data now n).keys = (List.range n).map (path zone data now) := by
  rw [OrderedDict.keys, entries_frames, List.map_map]
  rfl

theorem bumped : Bumped (fun n => (zone ⌊now n⌋₊).number) (fun n => millis (now n)) (given zone data now) where
  le n := Nat.le_add_right _ _
  ne i n hi hr ha := by
    have hsame : path zone data now n = path zone data now i := by
      have htm := LocalTime.number_injective hr
      change stamped (zone ⌊now n⌋₊) (given zone data now n) = stamped (zone ⌊now i⌋₊) (given zone data now i)
      rw [htm, ha]
    apply path_notMem zone data now n
    rw [keys_frames, hsame]
    exact List.mem_map_of_mem (List.mem_range.mpr hi)
  filled n k hk hkn := by
    obtain ⟨d, rfl⟩ := Nat.exists_eq_add_of_le hk
    have hmin : d < Nat.find (exists_free (frames zone data now n) (zone ⌊now n⌋₊) (millis (now n))) :=
      Nat.add_lt_add_iff_left.mp hkn
    have htaken := not_not.mp (Nat.find_min _ hmin)
    rw [keys_frames] at htaken
    obtain ⟨i, hi, hpath⟩ := List.mem_map.mp htaken
    obtain ⟨htm, hms⟩ := stamped_injective hpath
    exact ⟨i, List.mem_range.mp hi, congrArg LocalTime.number htm, hms⟩

theorem millis_lt (t : ℚ≥0) : millis t < 1000 := by
  have hpart : t - ⌊t⌋₊ < 1 := by
    rw [tsub_lt_iff_left (Nat.floor_le zero_le)]
    exact Nat.lt_floor_add_one t
  have hmicros : ⌊(t - ⌊t⌋₊) * 1000000⌋₊ < 1000000 := by
    rw [Nat.floor_lt (by positivity)]
    calc (t - ⌊t⌋₊) * 1000000 < 1 * 1000000 := by gcongr
      _ = ((1000000 : ℕ) : ℚ≥0) := by norm_num
  rw [millis]
  omega

theorem stamped_lt_of_lt (tm : LocalTime) {ms ms' : ℕ} (h : ms < ms') (hms : ms' < 1000) :
    stamped tm ms < stamped tm ms' := (stamped_lt_iff ..).mpr (Or.inr ⟨rfl, padded_three_lt h hms _ _⟩)

theorem stamped_overflow (tm : LocalTime) : stamped tm 1000 < stamped tm 999 :=
  (stamped_lt_iff ..).mpr (Or.inr ⟨rfl, by decide⟩)

theorem path_eq : path zone data now n = stamped (zone ⌊now n⌋₊) (given zone data now n) := rfl

theorem paths_sorted_iff :
    (∀ i j, i < j → j < n → path zone data now i < path zone data now j) ↔
      Ordered (fun n => (zone ⌊now n⌋₊).number) (given zone data now) n ∧ ∀ i < n, given zone data now i < 1000 := by
  have hb := bumped zone data now
  constructor
  · intro h
    have hlt (i j : ℕ) (hij : i < j) (hj : j < n) := (stamped_lt_iff ..).mp (h i j hij hj)
    have hroom : ∀ j < n, given zone data now j < 1000 := by
      intro j
      induction j using Nat.strong_induction_on with
      | _ j ih =>
        intro hj
        by_contra hbig
        have hown := millis_lt (now j)
        -- the first frame past 999 is at 1000, and 999 is taken
        obtain ⟨i, hij, hr, hi⟩ := hb.filled j 999 (by omega) (by omega)
        have hlast : given zone data now j = 1000 := by
          by_contra hne
          obtain ⟨k, hkj, -, hk⟩ := hb.filled j 1000 (by omega) (by omega)
          have := ih k hkj (by omega)
          omega
        have horder := h i j hij hj
        rw [path_eq, path_eq, hi, hlast, LocalTime.number_injective hr] at horder
        exact List.lt_irrefl _ (List.lt_trans horder (stamped_overflow _))
    refine ⟨fun i j hij hj => ?_, hroom⟩
    obtain hr | ⟨htm, -⟩ := hlt i j hij hj
    · exact Or.inl hr
    · refine Or.inr ⟨congrArg LocalTime.number htm, ?_⟩
      by_contra hback
      obtain heq | hgt := (not_lt.mp hback).eq_or_lt
      · exact hb.ne i j hij (congrArg LocalTime.number htm) heq.symm
      · have horder := h i j hij hj
        rw [path_eq, path_eq, htm] at horder
        exact List.lt_irrefl _ (List.lt_trans horder (stamped_lt_of_lt _ hgt (hroom i (by omega))))
  · rintro ⟨hord, hroom⟩ i j hij hj
    rw [path_eq, path_eq]
    obtain hr | ⟨hr, ha⟩ := hord i j hij hj
    · exact (stamped_lt_iff ..).mpr (Or.inl hr)
    · rw [LocalTime.number_injective hr]
      exact stamped_lt_of_lt _ ha (hroom j hj)

theorem listFrames_eq_iff_sorted {names listing : List Name} (hperm : listing.Perm names)
    (hframes : ∀ name ∈ names, ∃ tm ms, name = stamped tm ms) :
    listFrames listing = names ↔ names.Pairwise (· ≤ ·) := by
  have hall : (listing.filter fun n => framePrefix.isPrefixOf n && frameSuffix.isSuffixOf n) = listing := by
    rw [List.filter_eq_self]
    intro name hname
    obtain ⟨tm, ms, rfl⟩ := hframes name (hperm.subset hname)
    rw [Bool.and_eq_true, List.isPrefixOf_iff_prefix, List.isSuffixOf_iff_suffix]
    exact ⟨List.prefix_append _ _, (List.suffix_append _ _).trans (List.suffix_append _ _)⟩
  have hsorted := List.pairwise_insertionSort (fun a b : Name => a ≤ b) listing
  have hsame := List.perm_insertionSort (fun a b : Name => a ≤ b) listing
  rw [listFrames, hall]
  constructor
  · intro h
    exact h ▸ hsorted
  · intro h
    exact List.Perm.eq_of_pairwise (fun a b _ _ => le_antisymm) hsorted h (hsame.trans hperm)

theorem in_order_iff (listing : List Name) (hlisting : listing.Perm (frames zone data now n).keys) :
    listFrames listing = (List.range n).map (path zone data now) ↔
      Orderly (fun i => (zone ⌊now i⌋₊).number) (fun i => millis (now i)) n := by
  have hb := bumped zone data now
  have hkeys := keys_frames zone data now n
  have hnodup : ((List.range n).map (path zone data now)).Nodup := hkeys ▸ (frames zone data now n).nodup
  have hframes : ∀ name ∈ (List.range n).map (path zone data now), ∃ tm ms, name = stamped tm ms := by
    intro name hname
    obtain ⟨i, -, rfl⟩ := List.mem_map.mp hname
    exact ⟨_, _, path_eq zone data now i⟩
  have hlt : ((List.range n).map (path zone data now)).Pairwise (· ≤ ·) ↔
      ∀ i j, i < j → j < n → path zone data now i < path zone data now j := by
    constructor
    · intro h i j hij hj
      have hpair := List.pairwise_iff_getElem.mp (h.and hnodup) i j (by simpa using by omega) (by simpa using hj) hij
      simp only [List.getElem_map, List.getElem_range] at hpair
      exact lt_of_le_of_ne hpair.1 hpair.2
    · intro h
      rw [List.pairwise_map]
      refine List.Pairwise.imp_of_mem (fun {i j} _ hj hij => ?_) List.pairwise_lt_range
      exact le_of_lt (h i j hij (List.mem_range.mp hj))
  rw [listFrames_eq_iff_sorted (hkeys ▸ hlisting) hframes, hlt, paths_sorted_iff]
  constructor
  · rintro ⟨hord, hroom⟩
    exact hord.orderly hb hroom
  · intro h
    exact h.ordered hb

/-- No frame is overwritten, whatever the times; and the frames are listed in the order in which they
were saved exactly when their local times are orderly. -/
theorem frames_kept_and_in_order_iff (n : ℕ) (listing : List Name)
    (hlisting : listing.Perm (frames zone data now n).keys) :
    (frames zone data now n).entries = (List.range n).map (fun i => (path zone data now i, data i)) ∧
      (listFrames listing = (List.range n).map (path zone data now) ↔
        Orderly (fun i => (zone ⌊now i⌋₊).number) (fun i => millis (now i)) n) :=
  ⟨entries_frames zone data now n, in_order_iff zone data now n listing hlisting⟩

end Frames

section Samples

def utc (seconds : ℕ) : LocalTime := ⟨Fin.ofNat 24 (seconds/3600), Fin.ofNat 60 (seconds/60), Fin.ofNat 62 (seconds%60)⟩

/-- One frame in the middle of each second. -/
def evenly (start n : ℕ) : ℚ≥0 := (start+n : ℕ) + 1/2

theorem floor_evenly (start n : ℕ) : ⌊evenly start n⌋₊ = start+n := by
  rw [evenly, Nat.floor_eq_iff zero_le]
  exact ⟨le_self_add, by gcongr; norm_num⟩

/-- Two frames, half a second before and after midnight, come out in reverse. -/
theorem midnight_out_of_order : evenly 86399 0 < evenly 86399 1 ∧
    listFrames (frames utc id (evenly 86399) 2).keys ≠ (List.range 2).map (path utc id (evenly 86399)) := by
  refine ⟨by norm_num [evenly], fun h => ?_⟩
  have horderly := (in_order_iff utc id (evenly 86399) 2 _ (List.Perm.refl _)).mp h
  have hback := horderly.forward 0 1 (by omega) (by omega)
  simp only [floor_evenly] at hback
  exact absurd hback (by decide)

theorem noon_in_order :
    listFrames (frames utc id (evenly 43200) 2).keys = (List.range 2).map (path utc id (evenly 43200)) := by
  have hnumber (i j : ℕ) (hij : i < j) (hj : j < 2) : (utc ⌊evenly 43200 i⌋₊).number < (utc ⌊evenly 43200 j⌋₊).number := by
    obtain rfl : i = 0 := by omega
    obtain rfl : j = 1 := by omega
    rw [floor_evenly, floor_evenly]
    decide
  refine (frames_kept_and_in_order_iff utc id (evenly 43200) 2 _ (List.Perm.refl _)).2.mpr
    ⟨fun i j hij hj => (hnumber i j hij hj).le, fun i j hij hj hr => ?_, fun i j hij hj hr => ?_⟩
  · obtain rfl | hij := hij.eq_or_lt
    · have := millis_lt (evenly 43200 i)
      omega
    · exact absurd hr (hnumber i j hij hj).ne
  · exact absurd hr (hnumber i j hij hj).ne

end Samples

end PiBuddyCam.Timelapse
