import Mathlib.Data.List.Nodup

/-! Insertion-ordered dictionaries: assigning to a key that is present keeps its
place, assigning to a new key appends it, and no key occurs twice. -/

structure OrderedDict (κ ν : Type) where
  entries : List (κ × ν)
  nodup : (entries.map Prod.fst).Nodup

namespace OrderedDict

variable {κ ν : Type} [DecidableEq κ]

def empty : OrderedDict κ ν := ⟨[], List.nodup_nil⟩

def keys (d : OrderedDict κ ν) : List κ := d.entries.map Prod.fst

def get? (d : OrderedDict κ ν) (k : κ) : Option ν :=
  (d.entries.find? (fun e => e.1 = k)).map Prod.snd

def overwrite (k : κ) (v : ν) (e : κ × ν) : κ × ν := if e.1 = k then (k, v) else e

theorem keys_overwrite (k : κ) (v : ν) (l : List (κ × ν)) :
    (l.map (overwrite k v)).map Prod.fst = l.map Prod.fst := by
  rw [List.map_map]
  apply List.map_congr_left
  intro e _
  simp only [Function.comp_apply, overwrite]
  split_ifs with h
  · exact h.symm
  · rfl

def set (d : OrderedDict κ ν) (k : κ) (v : ν) : OrderedDict κ ν :=
  if h : k ∈ d.entries.map Prod.fst then
    ⟨d.entries.map (overwrite k v), by rw [keys_overwrite]; exact d.nodup⟩
  else
    ⟨d.entries ++ [(k, v)], by
      rw [List.map_append, List.map_singleton]
      exact List.nodup_append.mpr ⟨d.nodup, List.nodup_singleton k, by
        intro a ha b hb hab
        rw [hab, List.mem_singleton.mp hb] at ha
        exact h ha⟩⟩

def filter (d : OrderedDict κ ν) (p : κ × ν → Bool) : OrderedDict κ ν :=
  ⟨d.entries.filter p, d.nodup.sublist (List.filter_sublist.map Prod.fst)⟩

def mapValues (d : OrderedDict κ ν) (f : ν → ν) : OrderedDict κ ν :=
  ⟨d.entries.map fun e => (e.1, f e.2), by
    rw [List.map_map]
    exact d.nodup⟩

def pop (d : OrderedDict κ ν) (k : κ) : OrderedDict κ ν := d.filter (fun e => e.1 ≠ k)

@[simp] theorem get?_empty (k : κ) : (empty : OrderedDict κ ν).get? k = none := rfl

variable (d : OrderedDict κ ν)

theorem get?_eq_none_iff (k : κ) : d.get? k = none ↔ k ∉ d.keys := by
  simp only [get?, keys, Option.map_eq_none_iff, List.find?_eq_none, List.mem_map, not_exists, not_and,
    decide_eq_true_eq]

theorem get?_eq_some_iff (k : κ) (v : ν) :
    d.get? k = some v ↔ (k, v) ∈ d.entries := by
  obtain ⟨l, hl⟩ := d
  simp only [get?]
  induction l with
  | nil => simp
  | cons e l ih =>
    have hl' := List.nodup_cons.mp hl
    by_cases he : e.1 = k
    · have hnot : (k, v) ∉ l := fun h => hl'.1 (he ▸ List.mem_map.mpr ⟨(k, v), h, rfl⟩)
      simp only [List.find?_cons, he, decide_true, Option.map_some, Option.some.injEq, List.mem_cons,
        hnot, or_false]
      constructor
      · intro h
        exact Prod.ext he.symm h.symm
      · intro h
        rw [← h]
    · have hne : (k, v) ≠ e := fun h => he (by rw [← h])
      simp only [List.find?_cons, he, decide_false, List.mem_cons, hne, false_or]
      exact ih hl'.2

theorem get?_set_self (k : κ) (v : ν) : (d.set k v).get? k = some v := by
  rw [get?_eq_some_iff, set]
  split_ifs with h
  · obtain ⟨e, he, hk⟩ := List.mem_map.mp h
    exact List.mem_map.mpr ⟨e, he, by rw [overwrite, if_pos hk]⟩
  · simp

theorem get?_set_of_ne {k j : κ} (v : ν) (h : j ≠ k) :
    (d.set k v).get? j = d.get? j := by
  have hmem (w : ν) : (j, w) ∈ (d.set k v).entries ↔ (j, w) ∈ d.entries := by
    rw [set]
    split_ifs with hk
    · simp only [List.mem_map]
      constructor
      · rintro ⟨e, he, heq⟩
        rw [overwrite] at heq
        split_ifs at heq with hek
        · exact absurd (congrArg Prod.fst heq).symm h
        · exact heq ▸ he
      · intro hw
        exact ⟨(j, w), hw, by rw [overwrite, if_neg h]⟩
    · simp [h]
  apply Option.ext
  intro w
  rw [get?_eq_some_iff, get?_eq_some_iff, hmem]

theorem get?_set (k j : κ) (v : ν) :
    (d.set k v).get? j = if j = k then some v else d.get? j := by
  split_ifs with h
  · rw [h, get?_set_self]
  · exact get?_set_of_ne d v h

variable {k : κ}

theorem mem_entries_set {d : OrderedDict κ ν} {v : ν} {e : κ × ν} (h : e ∈ (d.set k v).entries) :
    e ∈ d.entries ∨ e = (k, v) := by
  obtain ⟨j, w⟩ := e
  have hget := ((d.set k v).get?_eq_some_iff j w).mpr h
  rw [get?_set] at hget
  split_ifs at hget with hj
  · rw [hj, ← Option.some.inj hget]
    exact Or.inr rfl
  · exact Or.inl ((d.get?_eq_some_iff j w).mp hget)

theorem get?_filter (p : κ × ν → Bool) (k : κ) (v : ν) :
    (d.filter p).get? k = some v ↔ d.get? k = some v ∧ p (k, v) = true := by
  rw [get?_eq_some_iff, get?_eq_some_iff]
  exact List.mem_filter

theorem get?_mapValues (f : ν → ν) (k : κ) (v : ν) :
    (d.mapValues f).get? k = some v ↔ ∃ w, d.get? k = some w ∧ f w = v := by
  simp only [get?_eq_some_iff, mapValues, List.mem_map, Prod.mk.injEq]
  constructor
  · rintro ⟨e, he, rfl, hv⟩
    exact ⟨e.2, he, hv⟩
  · rintro ⟨w, hw, hv⟩
    exact ⟨(k, w), hw, rfl, hv⟩

theorem get?_pop_eq_some_iff (k j : κ) (v : ν) :
    (d.pop k).get? j = some v ↔ d.get? j = some v ∧ j ≠ k := by
  rw [pop, get?_filter, decide_eq_true_eq]

@[simp] theorem get?_pop_self (k : κ) : (d.pop k).get? k = none := by
  apply Option.eq_none_iff_forall_not_mem.mpr
  intro v hv
  have h := (get?_filter d _ k v).mp hv
  simp at h

theorem get?_pop_of_ne {k j : κ} (h : j ≠ k) :
    (d.pop k).get? j = d.get? j := by
  apply Option.ext
  intro v
  rw [pop, get?_filter]
  simp [h]

theorem entries_set_of_notMem (v : ν) (h : d.get? k = none) :
    (d.set k v).entries = d.entries ++ [(k, v)] := by
  have hk : k ∉ d.entries.map Prod.fst := (get?_eq_none_iff d k).mp h
  rw [set, dif_neg hk]

theorem length_set_of_mem {w : ν} (v : ν) (h : d.get? k = some w) :
    (d.set k v).entries.length = d.entries.length := by
  have hk : k ∈ d.entries.map Prod.fst := List.mem_map_of_mem ((get?_eq_some_iff d k w).mp h)
  rw [set, dif_pos hk, List.length_map]

theorem length_pop_lt {v : ν} (h : d.get? k = some v) :
    (d.pop k).entries.length < d.entries.length := by
  apply List.length_filter_lt_length_iff_exists.mpr
  exact ⟨(k, v), (get?_eq_some_iff d k v).mp h, by simp⟩

theorem get?_foldl_set_of_ne {l : List (κ × ν)} (hl : ∀ e ∈ l, e.1 ≠ k) (d : OrderedDict κ ν) :
    (l.foldl (fun d e => d.set e.1 e.2) d).get? k = d.get? k := by
  induction l generalizing d with
  | nil => rfl
  | cons e l ih =>
    rw [List.foldl_cons, ih fun e' he' => hl e' (List.mem_cons_of_mem e he')]
    exact get?_set_of_ne d e.2 (hl e List.mem_cons_self).symm

/-- A new key leaves those behind it in a list without repetitions new. -/
theorem get?_set_of_nodup {μ : Type} {e : κ × μ} {l : List (κ × μ)} (hl : ((e :: l).map Prod.fst).Nodup)
    (hd : ∀ f ∈ e :: l, d.get? f.1 = none) (v : ν) : ∀ f ∈ l, (d.set e.1 v).get? f.1 = none := by
  intro f hf
  have hne : f.1 ≠ e.1 := fun heq => (List.nodup_cons.mp hl).1 (heq ▸ List.mem_map_of_mem hf)
  rw [get?_set_of_ne d v hne]
  exact hd f (List.mem_cons_of_mem e hf)

variable (l : List (κ × ν))

theorem get?_foldl_set (hl : (l.map Prod.fst).Nodup) (d : OrderedDict κ ν) (k : κ) :
    (l.foldl (fun d e => d.set e.1 e.2) d).get? k =
      ((l.find? (fun e => e.1 = k)).map Prod.snd).or (d.get? k) := by
  induction l generalizing d with
  | nil => simp
  | cons e l ih =>
    have hl' := List.nodup_cons.mp hl
    rw [List.foldl_cons, ih hl'.2, get?_set]
    by_cases he : e.1 = k
    · have hnone : l.find? (fun e => e.1 = k) = none := by
        rw [List.find?_eq_none]
        intro f hf hfk
        exact hl'.1 (List.mem_map.mpr ⟨f, hf, (of_decide_eq_true hfk).trans he.symm⟩)
      simp [he, hnone]
    · simp [he, Ne.symm he]

omit [DecidableEq κ] in
theorem eq_of_entries {d e : OrderedDict κ ν} (h : d.entries = e.entries) : d = e := by
  cases d
  cases e
  cases h
  rfl

theorem entries_set_of_mem (v : ν) (h : k ∈ d.keys) :
    (d.set k v).entries = d.entries.map (overwrite k v) := by
  have hk : k ∈ d.entries.map Prod.fst := h
  rw [set, dif_pos hk]

theorem set_set (k : κ) (v w : ν) : (d.set k v).set k w = d.set k w := by
  have hmem : k ∈ (d.set k v).keys := by
    by_contra hnot
    rw [← get?_eq_none_iff, get?_set_self] at hnot
    cases hnot
  apply eq_of_entries
  rw [entries_set_of_mem _ w hmem]
  by_cases hk : k ∈ d.keys
  · rw [entries_set_of_mem d v hk, entries_set_of_mem d w hk, List.map_map]
    apply List.map_congr_left
    intro e _
    simp only [Function.comp_apply, overwrite]
    split_ifs
    · rfl
    · contradiction
    · rfl
  · have hnone := (get?_eq_none_iff d k).mpr hk
    have hkeep : d.entries.map (overwrite k w) = d.entries := by
      rw [← List.map_id d.entries, List.map_map]
      apply List.map_congr_left
      intro e he
      have hek : e.1 ≠ k := fun hek => hk (hek ▸ List.mem_map_of_mem he)
      exact if_neg hek
    rw [entries_set_of_notMem d v hnone, entries_set_of_notMem d w hnone, List.map_append, hkeep, List.map_singleton,
      overwrite, if_pos rfl]

def ofList (l : List (κ × ν)) : OrderedDict κ ν := l.foldl (fun d e => d.set e.1 e.2) empty

theorem get?_ofList (hl : (l.map Prod.fst).Nodup) (k : κ) :
    (ofList l).get? k = (l.find? (fun e => e.1 = k)).map Prod.snd := by
  rw [ofList, get?_foldl_set l hl, get?_empty, Option.or_none]

theorem entries_foldl_set (hl : (l.map Prod.fst).Nodup) (d : OrderedDict κ ν)
    (hd : ∀ e ∈ l, d.get? e.1 = none) : (l.foldl (fun d e => d.set e.1 e.2) d).entries = d.entries ++ l := by
  induction l generalizing d with
  | nil => simp
  | cons e l ih =>
    have hnew := get?_set_of_nodup d hl hd e.2
    rw [List.foldl_cons, ih hl.of_cons (d.set e.1 e.2) hnew, entries_set_of_notMem d e.2 (hd e List.mem_cons_self),
      List.append_assoc, List.singleton_append]

theorem entries_ofList (hl : (l.map Prod.fst).Nodup) : (ofList l).entries = l :=
  entries_foldl_set l hl empty fun _ _ => rfl

end OrderedDict
