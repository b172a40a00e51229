import Mathlib.Data.List.Infix

/-! The first occurrence of a pattern in a list, and a list read in blocks. -/
namespace ByteSearch

variable {α : Type}

section Find

variable [DecidableEq α]

def first (pattern : List α) : List α → Option ℕ
  | [] => if pattern = [] then some 0 else none
  | x :: xs => if pattern <+: x :: xs then some 0 else (first pattern xs).map (· + 1)

def find (pattern data : List α) (start : ℕ) : Option ℕ := (first pattern (data.drop start)).map (start + ·)

variable {pattern data : List α}

theorem isPrefix_drop_of_first {d : ℕ} (h : first pattern data = some d) :
    pattern <+: data.drop d := by
  induction data generalizing d with
  | nil =>
    rw [first] at h
    split_ifs at h with hnil
    rw [hnil]
    exact List.nil_prefix
  | cons x xs ih =>
    rw [first] at h
    split_ifs at h with hx
    · rw [← Option.some.inj h]
      exact hx
    · obtain ⟨d', hd', rfl⟩ := Option.map_eq_some_iff.mp h
      exact ih hd'

theorem not_isPrefix_drop_of_lt_first {d e : ℕ} (h : first pattern data = some d) (he : e < d) :
    ¬pattern <+: data.drop e := by
  induction data generalizing d e with
  | nil =>
    rw [first] at h
    split_ifs at h with hnil
    rw [← Option.some.inj h] at he
    exact absurd he (Nat.not_lt_zero e)
  | cons x xs ih =>
    rw [first] at h
    split_ifs at h with hx
    · rw [← Option.some.inj h] at he
      exact absurd he (Nat.not_lt_zero e)
    · obtain ⟨d', hd', rfl⟩ := Option.map_eq_some_iff.mp h
      cases e with
      | zero => exact hx
      | succ e => exact ih hd' (Nat.lt_of_succ_lt_succ he)

theorem not_isPrefix_drop_of_first_eq_none (h : first pattern data = none) (e : ℕ) :
    ¬pattern <+: data.drop e := by
  induction data generalizing e with
  | nil =>
    rw [first] at h
    split_ifs at h with hnil
    rw [List.drop_nil]
    exact fun hp => hnil (List.prefix_nil.mp hp)
  | cons x xs ih =>
    rw [first] at h
    split_ifs at h with hx
    cases e with
    | zero => exact hx
    | succ e => exact ih (Option.map_eq_none_iff.mp h) e

theorem isPrefix_drop_of_find {start i : ℕ} (h : find pattern data start = some i) :
    pattern <+: data.drop i := by
  obtain ⟨d, hd, rfl⟩ := Option.map_eq_some_iff.mp h
  rw [← List.drop_drop]
  exact isPrefix_drop_of_first hd

theorem not_isPrefix_drop_of_lt_find {start i j : ℕ} (h : find pattern data start = some i)
    (hj : start ≤ j) (hji : j < i) : ¬pattern <+: data.drop j := by
  obtain ⟨d, hd, rfl⟩ := Option.map_eq_some_iff.mp h
  obtain ⟨e, rfl⟩ := Nat.exists_eq_add_of_le hj
  rw [← List.drop_drop]
  exact not_isPrefix_drop_of_lt_first hd (Nat.lt_of_add_lt_add_left hji)

theorem not_isPrefix_drop_of_find_eq_none {start j : ℕ} (h : find pattern data start = none)
    (hj : start ≤ j) : ¬pattern <+: data.drop j := by
  obtain ⟨e, rfl⟩ := Nat.exists_eq_add_of_le hj
  rw [← List.drop_drop]
  exact not_isPrefix_drop_of_first_eq_none (Option.map_eq_none_iff.mp h) e

theorem bounds_of_find {start i : ℕ} (hne : pattern ≠ []) (h : find pattern data start = some i) :
    start ≤ i ∧ i + pattern.length ≤ data.length := by
  obtain ⟨d, hd, rfl⟩ := Option.map_eq_some_iff.mp h
  have hlength := (isPrefix_drop_of_first hd).length_le
  have hpos := List.length_pos_iff.mpr hne
  rw [List.length_drop, List.length_drop] at hlength
  omega

end Find

/-- Read to the end, `n` elements at a time. -/
def blocks (n : ℕ) (data : List α) : List (List α) :=
  if n = 0 ∨ data = [] then []
  else data.take n :: blocks n (data.drop n)
termination_by data.length
decreasing_by
  rename_i h
  rw [not_or] at h
  have hpos := List.length_pos_iff.mpr h.2
  rw [List.length_drop]
  omega

theorem blocks_nil (n : ℕ) : blocks n ([] : List α) = [] := by
  rw [blocks, if_pos (Or.inr rfl)]

variable {n : ℕ}

theorem blocks_of_ne_nil (hn : n ≠ 0) {data : List α} (h : data ≠ []) :
    blocks n data = data.take n :: blocks n (data.drop n) := by
  rw [blocks, if_neg (not_or.mpr ⟨hn, h⟩)]

theorem blocks_append (hn : n ≠ 0) {block : List α} (h : block.length = n) (rest : List α) :
    blocks n (block ++ rest) = block :: blocks n rest := by
  have hne : block ++ rest ≠ [] := by
    intro hnil
    rw [(List.append_eq_nil_iff.mp hnil).1, List.length_nil] at h
    exact hn h.symm
  rw [blocks_of_ne_nil hn hne, List.take_left' h, List.drop_left' h]

theorem blocks_short {block : List α} (hne : block ≠ []) (h : block.length ≤ n) : blocks n block = [block] := by
  have hpos := List.length_pos_iff.mpr hne
  rw [blocks_of_ne_nil (by omega) hne, List.take_of_length_le h, List.drop_of_length_le h, blocks_nil]

theorem pair_infix_cons {a b c : α} {cs : List α} :
    [a, b] <:+: c :: cs ↔ (a = c ∧ cs.head? = some b) ∨ [a, b] <:+: cs := by
  have hhead : [b] <+: cs ↔ cs.head? = some b := by
    cases cs with
    | nil => simp
    | cons d cs => simp [List.cons_prefix_cons, eq_comm]
  rw [List.infix_cons_iff, List.cons_prefix_cons, hhead]

theorem length_of_pair_infix_blocks {c d data : List α} (h : [c, d] <:+: blocks n data) : c.length = n := by
  fun_induction blocks n data with
  | case1 data hend => exact absurd (List.infix_nil.mp h) (by simp)
  | case2 data hend ih =>
    rcases pair_infix_cons.mp h with ⟨rfl, hnext⟩ | hrest
    · have hmore : data.drop n ≠ [] := by
        intro hnil
        rw [hnil, blocks_nil] at hnext
        cases hnext
      have hlength := List.length_pos_iff.mpr hmore
      rw [List.length_drop] at hlength
      exact List.length_take_of_le (by omega)
    · exact ih hrest

end ByteSearch
