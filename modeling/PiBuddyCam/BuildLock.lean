import Mathlib.Logic.Function.Basic
import Mathlib.Data.Nat.Notation
import Mathlib.Tactic.SplitIfs
import PiBuddyCam.StepRuns

/-! The lock file of `app/media_build.py` between the build managers of two processes, one system call
at a time. Times are in seconds. -/
namespace PiBuddyCam.BuildLock

/-- Where a manager is in `_acquire_lock`: a first create has failed, the lock was found to be stale, the
lock was unlinked; or it has the lock since a time. -/
inductive Phase where
  | idle
  | refused
  | stale
  | unlinked
  | holding (since : ℕ)
  deriving DecidableEq

/-- A `stat` that fails counts as stale, and an `unlink` that fails is the end of either call. -/
def Phase.afterFailure : Phase → Phase
  | .idle => .refused
  | .refused => .stale
  | _ => .idle

/-- `file` is the time of the last change of the lock file, if it is there. -/
structure State where
  now : ℕ
  file : Option ℕ
  phase : Bool → Phase

/-- `tick` lets time pass, and `fail` is a system call that fails for a reason of its own; a manager that
dies leaves its lock behind. -/
inductive Event where
  | tick (seconds : ℕ)
  | fail (i : Bool)
  | create (i : Bool)
  | isStale (i : Bool)
  | unlink (i : Bool)
  | release (i : Bool)
  | die (i : Bool)

def State.goTo (s : State) (i : Bool) (p : Phase) (file : Option ℕ) : State :=
  { s with file := file, phase := Function.update s.phase i p }

/-- `_try_create_lock`, the first time and after the unlink. -/
def State.create (s : State) (i : Bool) (otherwise : Phase) : State :=
  if s.file = none then s.goTo i (.holding s.now) (some s.now) else s.goTo i otherwise s.file

variable (lockStale : ℕ)

/-- `_lock_is_stale`, also when the file is gone. -/
def State.lockIsStale (s : State) : Bool := s.file.all fun mtime => lockStale < s.now - mtime

def step (s : State) : Event → Option State
  | .tick seconds => some { s with now := s.now + seconds }
  | .create i =>
    match s.phase i with
    | .idle => some (s.create i .refused)
    | .unlinked => some (s.create i .idle)
    | _ => none
  | .isStale i =>
    if s.phase i = .refused then some (s.goTo i (if s.lockIsStale lockStale then .stale else .idle) s.file)
    else none
  | .unlink i =>
    if s.phase i = .stale then some (s.goTo i (if s.file = none then .idle else .unlinked) none) else none
  | .fail i => some (s.goTo i (s.phase i).afterFailure s.file)
  | .release i =>
    match s.phase i with
    | .holding _ => some (s.goTo i .idle none)
    | _ => none
  | .die i => some (s.goTo i .idle s.file)

def State.Holds (s : State) (i : Bool) : Prop := ∃ since, s.phase i = .holding since

def State.Exclusive (s : State) : Prop := ¬(s.Holds false ∧ s.Holds true)

/-- No build lasts longer than the stale age. -/
def Brief (s : State) : Event → Prop
  | .tick seconds => ∀ i since, s.phase i = .holding since → s.now + seconds ≤ since + lockStale
  | _ => True

/-- Besides, what a takeover unlinks is still a stale lock. -/
def Checked (s : State) : Event → Prop
  | .unlink _ => s.lockIsStale lockStale = true
  | e => Brief lockStale s e

/-- Whoever has the lock, the file is that manager's own and not stale, and nobody else has it. -/
def Inv (s : State) : Prop := ∀ i since, s.phase i = .holding since →
  s.file = some since ∧ since ≤ s.now ∧ s.now ≤ since + lockStale ∧ ∀ j, s.Holds j → j = i

variable {lockStale : ℕ} {s t : State}

theorem holding_of_goTo {i j : Bool} {p : Phase} {file : Option ℕ} {since : ℕ} (hp : p ≠ .holding since)
    (h : (s.goTo i p file).phase j = .holding since) : j ≠ i ∧ s.phase j = .holding since := by
  simp only [State.goTo, Function.update_apply] at h
  split_ifs at h with hji
  · exact absurd h hp
  · exact ⟨hji, h⟩

theorem Inv.goTo (h : Inv lockStale s) (i : Bool) {p : Phase} (hp : ∀ since, p ≠ .holding since) {file : Option ℕ}
    (hfile : ∀ j, j ≠ i → s.Holds j → file = s.file) : Inv lockStale (s.goTo i p file) := by
  intro j since hj
  obtain ⟨hji, hold⟩ := holding_of_goTo (hp since) hj
  obtain ⟨hown, hlow, hhigh, hone⟩ := h j since hold
  refine ⟨(hfile j hji ⟨since, hold⟩).trans hown, hlow, hhigh, ?_⟩
  rintro k ⟨since', hk⟩
  exact hone k ⟨since', (holding_of_goTo (hp since') hk).2⟩

theorem Inv.create (h : Inv lockStale s) (i : Bool) {p : Phase} (hp : ∀ since, p ≠ .holding since) :
    Inv lockStale (s.create i p) := by
  rw [State.create]
  split_ifs with hfile
  · -- nobody has the lock, as there is no file
    have hnobody (j : Bool) (since : ℕ) : s.phase j ≠ .holding since := by
      intro hj
      have hown := (h j since hj).1
      rw [hfile] at hown
      cases hown
    have hself (j : Bool) (since : ℕ) (hj : (s.goTo i (.holding s.now) (some s.now)).phase j = .holding since) :
        j = i ∧ since = s.now := by
      simp only [State.goTo, Function.update_apply] at hj
      split_ifs at hj with hji
      · exact ⟨hji, (Phase.holding.inj hj).symm⟩
      · exact absurd hj (hnobody j since)
    intro j since hj
    obtain ⟨rfl, rfl⟩ := hself j since hj
    refine ⟨rfl, Nat.le_refl _, Nat.le_add_right _ _, ?_⟩
    rintro k ⟨since', hk⟩
    exact (hself k since' hk).1
  · exact h.goTo i hp fun _ _ _ => rfl

theorem inv_step (s : State) (e : Event) (t : State) (h : Inv lockStale s) (hchecked : Checked lockStale s e)
    (hstep : step lockStale s e = some t) : Inv lockStale t := by
  cases e with
  | tick seconds =>
    obtain rfl := Option.some.inj hstep
    intro i since hi
    obtain ⟨hown, hlow, -, hone⟩ := h i since hi
    exact ⟨hown, Nat.le_add_right_of_le hlow, hchecked i since hi, hone⟩
  | create i =>
    simp only [step] at hstep
    split at hstep
    · exact Option.some.inj hstep ▸ h.create i (by simp)
    · exact Option.some.inj hstep ▸ h.create i (by simp)
    · cases hstep
  | isStale i =>
    simp only [step] at hstep
    split_ifs at hstep
    · exact Option.some.inj hstep ▸ h.goTo i (by simp) fun _ _ _ => rfl
    · exact Option.some.inj hstep ▸ h.goTo i (by simp) fun _ _ _ => rfl
  | unlink i =>
    -- the file is stale, so it is nobody's
    have hnobody (j : Bool) : ¬s.Holds j := by
      rintro ⟨since, hj⟩
      obtain ⟨hown, -, hhigh, -⟩ := h j since hj
      have hstale : lockStale < s.now - since := by simpa [Checked, State.lockIsStale, hown] using hchecked
      omega
    simp only [step] at hstep
    split_ifs at hstep
    · exact Option.some.inj hstep ▸ h.goTo i (by simp) fun j _ hj => absurd hj (hnobody j)
    · exact Option.some.inj hstep ▸ h.goTo i (by simp) fun j _ hj => absurd hj (hnobody j)
  | release i =>
    simp only [step] at hstep
    split at hstep
    · next since hi =>
      -- the manager that gives the lock back is the only one that has it
      have hone := (h i since hi).2.2.2
      exact Option.some.inj hstep ▸ h.goTo i (by simp) fun j hji hj => absurd (hone j hj) hji
    · cases hstep
  | fail i =>
    have hfailed (since : ℕ) : (s.phase i).afterFailure ≠ .holding since := by
      cases s.phase i <;> simp [Phase.afterFailure]
    exact Option.some.inj hstep ▸ h.goTo i hfailed fun _ _ _ => rfl
  | die i => exact Option.some.inj hstep ▸ h.goTo i (by simp) fun _ _ _ => rfl

/-- Two managers never hold the lock at once, however their calls interleave, as long as builds are brief
and a takeover unlinks a stale lock only. -/
theorem lock_exclusive {start : State} {events : List Event} (hstart : ∀ i, start.phase i = .idle)
    (hchecked : StepRuns.AllMeet (step lockStale) (Checked lockStale) start events)
    (hrun : StepRuns.run (step lockStale) start events = some t) : t.Exclusive := by
  have hinit : Inv lockStale start := by
    intro i since hi
    rw [hstart i] at hi
    cases hi
  have hinv := StepRuns.inv_of_run inv_step hinit hchecked hrun
  rintro ⟨⟨since, hfalse⟩, htrue⟩
  exact Bool.noConfusion ((hinv false since hfalse).2.2.2 true htrue)

section Samples

/-- A lock of a process that is gone, and two managers that have just found it stale. -/
def leftover : State := ⟨3601, some 0, fun _ => .idle⟩

def takeover (i : Bool) : List Event := [.create i, .isStale i, .unlink i, .create i]

def bothTakeOver : List Event :=
  [.create false, .create true, .isStale false, .isStale true, .unlink false, .create false, .unlink true, .create true]

/-- Both find the old lock stale; the second unlinks the lock that the first has just made. -/
theorem both_take_over : StepRuns.AllMeet (step 3600) (Brief 3600) leftover bothTakeOver ∧
    ∃ s, StepRuns.run (step 3600) leftover bothTakeOver = some s ∧ ¬s.Exclusive := by
  refine ⟨StepRuns.allMeet_of_forall (fun s e he => ?_) _, _, rfl, fun h => h ⟨⟨_, rfl⟩, ⟨_, rfl⟩⟩⟩
  cases e with
  | tick seconds => simp [bothTakeOver] at he
  | _ => trivial

theorem one_takes_over : ∃ s, StepRuns.run (step 3600) leftover (takeover false) = some s ∧ s.Exclusive := by
  have hrun : StepRuns.run (step 3600) leftover (takeover false) = some _ := rfl
  refine ⟨_, hrun, lock_exclusive (fun _ => rfl) ?_ hrun⟩
  refine ⟨trivial, fun s hs => ⟨trivial, fun t ht => ⟨?_, fun _ _ => ⟨trivial, fun _ _ => trivial⟩⟩⟩⟩
  obtain rfl := Option.some.inj hs
  obtain rfl := Option.some.inj ht
  rfl

end Samples

end PiBuddyCam.BuildLock
