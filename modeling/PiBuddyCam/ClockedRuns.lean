import Mathlib.Data.Set.Finite.List
import Mathlib.Data.Set.Finite.Lattice

/-! Runs of calls of which some read a clock that does not go back. -/
namespace ClockedRuns

variable {σ ι τ : Type} [LinearOrder τ] {time : ι → Option τ} {calls more : List ι} {c : ι} {now : τ}

/-- The clock has come to `now` at most. -/
def Clocked (time : ι → Option τ) (calls : List ι) (now : τ) : Prop :=
  (calls.filterMap time).Pairwise (· ≤ ·) ∧ ∀ t ∈ calls.filterMap time, t ≤ now

theorem Clocked.of_append (h : Clocked time (calls ++ more) now) : Clocked time calls now := by
  rw [Clocked, List.filterMap_append] at h
  exact ⟨(List.pairwise_append.mp h.1).1, fun t ht => h.2 t (List.mem_append_left _ ht)⟩

theorem clocked_of_cons (h : ((calls ++ c :: more).filterMap time).Pairwise (· ≤ ·)) (hc : time c = some now) :
    Clocked time calls now := by
  rw [List.filterMap_append, List.pairwise_append] at h
  exact ⟨h.1, fun t ht => h.2.2 t ht now (by simp [hc])⟩

theorem exists_clocked [Nonempty τ] (h : ((calls ++ more).filterMap time).Pairwise (· ≤ ·)) :
    ∃ now, Clocked time calls now := by
  rw [List.filterMap_append, List.pairwise_append] at h
  obtain ⟨now, hnow⟩ := (List.finite_toSet (calls.filterMap time)).bddAbove
  exact ⟨now, h.1, fun t ht => hnow ht⟩

/-- The last call reads the time `t`, or none. -/
theorem Clocked.snoc (h : Clocked time (calls ++ [c]) now) :
    ∃ t ≤ now, Clocked time calls t ∧ ∀ u, time c = some u → u = t := by
  cases hc : time c with
  | none => exact ⟨now, le_rfl, h.of_append, nofun⟩
  | some t =>
    have hle : t ≤ now := h.2 t (by simp [hc])
    exact ⟨t, hle, clocked_of_cons h.1 hc, fun u hu => (Option.some.inj hu).symm⟩

/-- What every call keeps at the time it reads, and the clock keeps, holds after every such run. -/
theorem inv_of_clocked {act : σ → ι → σ} {inv : σ → τ → Prop} {s : σ} (hs : ∀ now, inv s now)
    (hlater : ∀ s now clock, now ≤ clock → inv s now → inv s clock)
    (hact : ∀ s c now, (∀ t, time c = some t → t = now) → inv s now → inv (act s c) now) (h : Clocked time calls now) :
    inv (calls.foldl act s) now := by
  induction calls using List.reverseRecOn generalizing now with
  | nil => exact hs now
  | append_singleton calls c ih =>
    obtain ⟨t, hle, hpast, hc⟩ := h.snoc
    rw [List.foldl_append]
    exact hlater _ t now hle (hact _ c t hc (ih hpast))

end ClockedRuns
