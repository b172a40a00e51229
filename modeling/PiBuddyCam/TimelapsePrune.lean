import Mathlib.Algebra.GroupWithZero.Nat
import Mathlib.Data.List.Sort
import Mathlib.Data.Prod.Lex
import Mathlib.Data.String.Basic
import PiBuddyCam.PyText

/-! `_prune_timelapse` of `persist_restore.py`: at boot, when space is low, the oldest frames of the timelapse directory
and of its session folders are deleted. -/
namespace PiBuddyCam.TimelapsePrune

/-- A file of the directory, or of one of its folders. -/
structure Place where
  folder : Option String
  name : String

def Place.text (p : Place) : String :=
  match p.folder with
  | none => p.name
  | some folder => folder ++ "/" ++ p.name

/-- What `lstat` tells of a regular file: its size and time. It is `none` for anything else, and where the call fails. -/
abbrev Stat (τ : Type) := Option (ℕ × τ)

/-- An entry of the directory; `none` for a folder that cannot be listed. -/
inductive Node (τ : Type) where
  | file (stat : Stat τ)
  | folder (files : Option (List (String × Stat τ)))

abbrev Directory (τ : Type) := List (String × Node τ)

structure Frame (τ : Type) where
  place : Place
  size : ℕ
  mtime : τ

inductive Act where
  | remove (p : Place)
  | rmdir (folder : String)

def isJpg (name : String) : Bool := PyText.endswith name ".jpg"

/-- The `$` of the expression also matches before a newline at the end of the name. -/
def validSessionName (name : String) : Bool :=
  let digits (cs : List Char) := cs.all fun c => '0' ≤ c && c ≤ '9'
  let cs := name.toList
  PyText.startswith name "session_" && digits ((cs.drop 8).take 8) && cs[16]? = some '-' &&
    digits ((cs.drop 17).take 6) && (cs.drop 23 = [] && cs.length = 23 || cs.drop 23 = ['\n'])

section Frames

variable {τ : Type}

def listed (d : Directory τ) : List (Place × Stat τ) :=
  d.flatMap fun e =>
    match e.2 with
    | .folder files =>
      if validSessionName e.1 then (files.getD []).map fun x => (⟨some e.1, x.1⟩, x.2) else []
    | .file stat => if validSessionName e.1 then [] else [(⟨none, e.1⟩, stat)]

def frameStat (x : Place × Stat τ) : Option (Frame τ) :=
  if isJpg x.1.name then x.2.map fun s => ⟨x.1, s.1, s.2⟩ else none

def frameInventory (d : Directory τ) : List (Frame τ) := (listed d).filterMap frameStat

def select (total limit : ℕ) : ℕ → List (Frame τ) → List (Frame τ)
  | _, [] => []
  | freed, f :: rest => if total - freed ≤ limit then [] else f :: select total limit (freed + f.size) rest

def sizes (frames : List (Frame τ)) : ℕ := (frames.map Frame.size).sum

def threshold : ℕ := 300*1024*1024

def listSessions (d : Directory τ) : List String :=
  d.filterMap fun e =>
    match e.2 with
    | .folder _ => if validSessionName e.1 then some e.1 else none
    | .file _ => none

theorem isJpg_of_mem {d : Directory τ} {f : Frame τ} (h : f ∈ frameInventory d) : isJpg f.place.name = true := by
  obtain ⟨x, -, hx⟩ := List.mem_filterMap.mp h
  unfold frameStat at hx
  split_ifs at hx with hjpg
  obtain ⟨s, -, rfl⟩ := Option.map_eq_some_iff.mp hx
  exact hjpg

theorem sizes_cons (f : Frame τ) (frames : List (Frame τ)) : sizes (f :: frames) = f.size + sizes frames := rfl

theorem select_spec (total limit freed : ℕ) (frames : List (Frame τ)) :
    ∃ rest, frames = select total limit freed frames ++ rest ∧
      (rest = [] ∨ total - limit ≤ freed + sizes (select total limit freed frames)) ∧
      ∀ front last, select total limit freed frames = front ++ [last] → freed + sizes front < total - limit := by
  induction frames generalizing freed with
  | nil => exact ⟨[], rfl, Or.inl rfl, fun front last h => absurd h.symm (by simp [select])⟩
  | cons f frames ih =>
    rw [select]
    split_ifs with hdone
    · exact ⟨f :: frames, rfl, Or.inr (by omega), fun front last h => absurd h.symm (by simp)⟩
    obtain ⟨rest, hrest, henough, hfew⟩ := ih (freed + f.size)
    refine ⟨rest, congrArg (f :: ·) hrest, henough.imp_right ?_, fun front last h => ?_⟩
    · rw [sizes_cons, Nat.add_assoc]
      exact id
    cases front with
    | nil =>
      have hnone : sizes ([] : List (Frame τ)) = 0 := rfl
      omega
    | cons g front =>
      obtain ⟨rfl, hselected⟩ := List.cons.inj h
      have hless := hfew front last hselected
      rw [sizes_cons]
      omega

end Frames

section Order

variable {τ : Type} [LinearOrder τ]

def Frame.key (f : Frame τ) : τ ×ₗ String := toLex (f.mtime, f.place.text)

def framesToPrune (frames : List (Frame τ)) (total limit : ℕ) : List (Frame τ) :=
  if total ≤ limit then [] else select total limit 0 (frames.insertionSort fun a b => a.key ≤ b.key)

def selected (d : Directory τ) (free : ℕ) : List (Frame τ) :=
  let total := sizes (frameInventory d)
  framesToPrune (frameInventory d) total (total - (threshold - free))

def pruneTimelapse (active : Option String) (d : Directory τ) (free : ℕ) : List Act :=
  if threshold ≤ free ∨ (frameInventory d).isEmpty then []
  else (selected d free).map (fun f => .remove f.place) ++
    ((listSessions d).filter fun name => active ≠ some name).map .rmdir

theorem framesToPrune_spec (frames : List (Frame τ)) (total limit : ℕ) :
    ∃ rest, (framesToPrune frames total limit ++ rest).Perm frames ∧
      (framesToPrune frames total limit ++ rest).Pairwise (fun a b => a.key ≤ b.key) ∧
      (rest = [] ∨ total - limit ≤ sizes (framesToPrune frames total limit)) ∧
      ∀ front last, framesToPrune frames total limit = front ++ [last] → sizes front < total - limit := by
  have hperm := List.perm_insertionSort (fun a b : Frame τ => a.key ≤ b.key) frames
  have hsorted := List.pairwise_insertionSort (fun a b : Frame τ => a.key ≤ b.key) frames
  unfold framesToPrune
  split_ifs with hle
  · exact ⟨_, hperm, hsorted, Or.inr (by omega), fun front last h => absurd h.symm (by simp)⟩
  · obtain ⟨rest, hrest, henough, hfew⟩ := select_spec total limit 0 (frames.insertionSort fun a b => a.key ≤ b.key)
    rw [Nat.zero_add] at henough
    refine ⟨rest, hrest ▸ hperm, hrest ▸ hsorted, henough, fun front last h => ?_⟩
    rw [← Nat.zero_add (sizes front)]
    exact hfew front last h

/-- The frames that are deleted are the oldest ones, as many as are needed and no more. They are taken from those of all
session folders too, and nothing but frames is deleted. -/
theorem prunes_oldest_frames (active : Option String) (d : Directory τ) (free : ℕ) :
    (∀ p, .remove p ∈ pruneTimelapse active d free ↔ ∃ f ∈ selected d free, f.place = p) ∧
    min (threshold - free) (sizes (frameInventory d)) ≤ sizes (selected d free) ∧
    (∀ front last, selected d free = front ++ [last] → (∀ f ∈ front, f.key ≤ last.key) ∧
      sizes front < min (threshold - free) (sizes (frameInventory d))) ∧
    (∀ f ∈ selected d free, f ∈ frameInventory d ∧ isJpg f.place.name = true ∧
      ∀ g ∈ frameInventory d, g ∉ selected d free → f.key ≤ g.key) ∧
    ∀ session files, (session, .folder (some files)) ∈ d → validSessionName session = true → ∀ e ∈ files, isJpg e.1 = true →
      ∀ s, e.2 = some s → ⟨⟨some session, e.1⟩, s.1, s.2⟩ ∈ frameInventory d := by
  obtain ⟨rest, hperm, hsorted, henough, hfew⟩ := framesToPrune_spec (frameInventory d) (sizes (frameInventory d))
    (sizes (frameInventory d) - (threshold - free))
  change (selected d free ++ rest).Perm _ at hperm
  have htotal : sizes (frameInventory d) = sizes (selected d free) + sizes rest := by
    rw [sizes, ← (hperm.map Frame.size).sum_nat, List.map_append, List.sum_append]
    rfl
  have hsorted := List.pairwise_append.mp hsorted
  have hframe (f : Frame τ) (hf : f ∈ selected d free) : f ∈ frameInventory d :=
    hperm.subset (List.mem_append_left _ hf)
  refine ⟨fun p => ?_, ?_, fun front last h => ⟨fun f hf => ?_, ?_⟩,
    fun f hf => ⟨hframe f hf, isJpg_of_mem (hframe f hf), fun g hg hkept => ?_⟩, ?_⟩
  · unfold pruneTimelapse
    split_ifs with hnothing
    · have hnone : selected d free = [] := by
        refine if_pos ?_
        rcases hnothing with hfree | hempty
        · omega
        · rw [List.isEmpty_iff.mp hempty]
          exact Nat.zero_le _
      simp [hnone]
    · simp
  · rcases henough with rfl | henough
    · rw [htotal]
      exact Nat.min_le_right _ _
    · exact Nat.le_trans (by omega) henough
  · have hfront := hsorted.1
    rw [← selected, h, List.pairwise_append] at hfront
    exact hfront.2.2 f hf last List.mem_cons_self
  · have hless := hfew front last h
    omega
  · exact hsorted.2.2 f hf g ((List.mem_append.mp (hperm.mem_iff.mpr hg)).resolve_left hkept)
  · intro session files hfolder hsession e he hjpg s hs
    refine List.mem_filterMap.mpr ⟨(⟨some session, e.1⟩, e.2), List.mem_flatMap.mpr ⟨_, hfolder, ?_⟩, ?_⟩
    · dsimp only
      rw [if_pos hsession]
      exact List.mem_map_of_mem he
    · rw [frameStat, if_pos hjpg, hs]
      rfl

end Order

end PiBuddyCam.TimelapsePrune
