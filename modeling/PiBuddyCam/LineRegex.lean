import Mathlib.Data.List.Infix

/-! Regular expressions of Python's `re` that begin with the `^` of a line. A pattern is given by what it matches
at such a place; one that never passes the end of a line works on each line by itself. -/
namespace LineRegex

structure Match (γ : Type) where
  length : ℕ
  groups : γ

abbrev Pattern (γ : Type) := List Char → Option (Match γ)

section Scan

variable {γ : Type} (pat : Pattern γ) (repl : γ → List Char)

/-- The text as the characters between the matches, and the groups of each match. `start` says that a line begins
here, and `skip` counts the characters left of the last match. -/
def scan : (start : Bool) → (skip : ℕ) → List Char → List (Char ⊕ γ)
  | _, _, [] => []
  | _, skip+1, c :: cs => scan (c = '\n') skip cs
  | start, 0, c :: cs =>
    match if start then pat (c :: cs) else none with
    | some m => .inr m.groups :: scan (c = '\n') (m.length-1) cs
    | none => .inl c :: scan (c = '\n') 0 cs

def piece : Char ⊕ γ → List Char
  | .inl c => [c]
  | .inr groups => repl groups

def sub (text : List Char) : List Char := (scan pat true 0 text).flatMap (piece repl)

def finditer (text : List Char) : List γ := (scan pat true 0 text).filterMap Sum.getRight?

def scanLine (line : List Char) : List (Char ⊕ γ) :=
  match pat line with
  | some m => .inr m.groups :: (line.drop m.length).map .inl
  | none => line.map .inl

def subLine (line : List Char) : List Char :=
  match pat line with
  | some m => repl m.groups ++ line.drop m.length
  | none => line

end Scan

/-- A pattern whose matches are not empty and end with the line at the latest. -/
structure Pattern.Local {γ : Type} (pat : Pattern γ) : Prop where
  pos : ∀ l m, pat l = some m → 0 < m.length
  within : ∀ l m, '\n' ∉ l → pat l = some m → m.length ≤ l.length
  append : ∀ l rest, '\n' ∉ l → pat (l ++ '\n' :: rest) = pat l

theorem newline_notMem_splitOn (text : List Char) : ∀ l ∈ text.splitOn '\n', '\n' ∉ l := by
  induction text with
  | nil =>
    rw [List.splitOn_nil]
    exact List.forall_mem_singleton.mpr List.not_mem_nil
  | cons c text ih =>
    rw [List.splitOn_cons_eq_if_modifyHead]
    obtain ⟨l, lines, hlines⟩ := List.exists_cons_of_ne_nil (List.splitOn_ne_nil '\n' text)
    split_ifs with hc
    · exact List.forall_mem_cons.mpr ⟨List.not_mem_nil, ih⟩
    · rw [hlines, List.modifyHead_cons]
      rw [hlines, List.forall_mem_cons] at ih
      refine List.forall_mem_cons.mpr ⟨fun hmem => ?_, ih.2⟩
      rcases List.mem_cons.mp hmem with rfl | hmem
      · exact hc BEq.rfl
      · exact ih.1 hmem

section Lines

variable {γ : Type} (pat : Pattern γ) (repl : γ → List Char)

theorem scan_rest {l : List Char} (hl : '\n' ∉ l) (n : ℕ) (hn : n ≤ l.length) (tail : List Char) :
    scan pat false n (l ++ tail) = (l.drop n).map .inl ++ scan pat false 0 tail := by
  induction l generalizing n with
  | nil =>
    rw [Nat.le_zero.mp hn]
    rfl
  | cons c l ih =>
    have hc : decide (c = '\n') = false := decide_eq_false fun h => hl (h ▸ List.mem_cons_self)
    have hrest : '\n' ∉ l := fun h => hl (List.mem_cons_of_mem c h)
    cases n with
    | zero =>
      rw [List.cons_append, scan, if_neg Bool.false_ne_true, hc]
      rw [ih hrest 0 (Nat.zero_le _)]
      rfl
    | succ n => rw [List.cons_append, scan, hc, ih hrest n (Nat.le_of_succ_le_succ hn), List.drop_succ_cons]

theorem flatMap_scanLine (line : List Char) : (scanLine pat line).flatMap (piece repl) = subLine pat repl line := by
  have hcopy (l : List Char) : (l.map .inl).flatMap (piece repl) = l := by
    rw [List.flatMap_map]
    exact List.flatMap_singleton' l
  unfold scanLine subLine
  cases pat line with
  | none => exact hcopy line
  | some m => exact congrArg (repl m.groups ++ ·) (hcopy _)

theorem groups_scanLine (line : List Char) :
    (scanLine pat line).flatMap (fun e => e.getRight?.toList) = ((pat line).map Match.groups).toList := by
  have hcopy (l : List Char) : (l.map (.inl : Char → Char ⊕ γ)).flatMap (fun e => e.getRight?.toList) = [] := by
    rw [List.flatMap_map]
    exact List.flatMap_eq_nil_iff.mpr fun _ _ => rfl
  unfold scanLine
  cases pat line with
  | none => exact hcopy line
  | some m => exact congrArg (m.groups :: ·) (hcopy _)

variable {pat} (hpat : pat.Local)

include hpat

theorem match_nil : pat [] = none := by
  cases hm : pat [] with
  | none => rfl
  | some m =>
    have hpos := hpat.pos [] m hm
    have hle := hpat.within [] m List.not_mem_nil hm
    rw [List.length_nil] at hle
    omega

theorem scan_line {l tail : List Char} (hl : '\n' ∉ l) (htail : pat (l ++ tail) = pat l) :
    scan pat true 0 (l ++ tail) = scanLine pat l ++ scan pat false 0 tail := by
  cases l with
  | nil =>
    rw [List.nil_append, match_nil hpat] at htail
    rw [scanLine, match_nil hpat]
    cases tail with
    | nil => rfl
    | cons c tail =>
      rw [List.nil_append, scan, if_pos rfl, htail]
      rfl
  | cons c l =>
    have hc : decide (c = '\n') = false := decide_eq_false fun h => hl (h ▸ List.mem_cons_self)
    have hrest : '\n' ∉ l := fun h => hl (List.mem_cons_of_mem c h)
    rw [List.cons_append] at htail ⊢
    rw [scan, if_pos rfl, htail, hc, scanLine]
    cases hm : pat (c :: l) with
    | none =>
      rw [scan_rest pat hrest 0 (Nat.zero_le _)]
      rfl
    | some m =>
      have hpos := hpat.pos _ m hm
      have hle := hpat.within _ m hl hm
      rw [List.length_cons] at hle
      obtain ⟨n, hn⟩ : ∃ n, m.length = n+1 := ⟨m.length-1, by omega⟩
      dsimp only
      rw [hn, Nat.add_sub_cancel, scan_rest pat hrest n (by omega), List.drop_succ_cons]
      rfl

theorem flatMap_scan {β : Type} (h : Char ⊕ γ → List β) {lines : List (List Char)} (hlines : ∀ l ∈ lines, '\n' ∉ l) :
    (scan pat true 0 (['\n'].intercalate lines)).flatMap h =
      (h (.inl '\n')).intercalate (lines.map fun l => (scanLine pat l).flatMap h) := by
  induction lines with
  | nil => rfl
  | cons l lines ih =>
    obtain ⟨hl, hrest⟩ := List.forall_mem_cons.mp hlines
    cases lines with
    | nil =>
      have hsame : pat (l ++ []) = pat l := by rw [List.append_nil]
      have hend := scan_line hpat hl hsame
      rw [List.append_nil, scan, List.append_nil] at hend
      rw [List.intercalate_singleton, hend, List.map_singleton, List.intercalate_singleton]
    | cons next lines =>
      have hnext (rest : List Char) : scan pat false 0 ('\n' :: rest) = .inl '\n' :: scan pat true 0 rest := rfl
      rw [List.intercalate_cons_cons, List.append_assoc, List.singleton_append, scan_line hpat hl (hpat.append l _ hl),
        hnext, List.flatMap_append, List.flatMap_cons, ih hrest, List.map_cons, List.map_cons, List.map_cons,
        List.intercalate_cons_cons, List.append_assoc]

theorem sub_intercalate {lines : List (List Char)} (hlines : ∀ l ∈ lines, '\n' ∉ l) :
    sub pat repl (['\n'].intercalate lines) = ['\n'].intercalate (lines.map (subLine pat repl)) := by
  rw [sub, flatMap_scan hpat _ hlines]
  simp only [flatMap_scanLine]
  rfl

theorem finditer_intercalate {lines : List (List Char)} (hlines : ∀ l ∈ lines, '\n' ∉ l) :
    finditer pat (['\n'].intercalate lines) = lines.flatMap fun l => ((pat l).map Match.groups).toList := by
  rw [finditer, List.filterMap_eq_flatMap_toList, flatMap_scan hpat _ hlines]
  simp only [groups_scanLine]
  have hjoin (xs : List (List γ)) : [].intercalate xs = xs.flatten := by
    induction xs with
    | nil => rfl
    | cons x xs ih => cases xs <;> simp_all [List.intercalate]
  exact hjoin _

end Lines

end LineRegex
