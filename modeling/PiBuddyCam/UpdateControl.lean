import Mathlib.Data.List.Basic
import Mathlib.Logic.Function.Basic
import PiBuddyCam.StepRuns

/-! `update_control.py`: the checks and installs that `UpdateManager` starts in threads of their own, and
the flags by which it refuses a second one before the deadline. -/
namespace PiBuddyCam.UpdateControl

inductive Kind where
  | check | install
  deriving DecidableEq

/-- The fields of one kind; with its workers that are still running, by number and start. -/
structure Slot where
  inFlight : Bool := false
  started : Int := 0
  reason : String := ""
  count : ℕ := 0
  running : List (ℕ × Int) := []

def Slot.fresh (s : Slot) (now deadline : Int) : Bool := s.inFlight && decide (now - s.started < deadline)

structure UpdateManager where
  closed : Bool := false
  now : Int := 0
  slots : Kind → Slot := fun _ => {}

/-- A request reads the clock again after it has passed the guard. -/
inductive Event where
  | clock (now : Int)
  | start (kind : Kind) (now : Int)
  | finish (kind : Kind) (worker : ℕ) (reason : String)
  | close

def inProgress : Kind → String
  | .check => "an update check is already in progress"
  | .install => "an update install is already in progress"

variable (deadline : Kind → Int)

namespace UpdateManager

variable (m : UpdateManager)

def fresh (kind : Kind) : Bool := (m.slots kind).fresh m.now (deadline kind)

def refusal (kind : Kind) : Option String :=
  if m.closed then some "update control is shutting down"
  else if m.fresh deadline kind then some (inProgress kind)
  else if kind = .install ∧ m.fresh deadline .check then some "an update check is in progress"
  else none

def step : Event → Option UpdateManager
  | .clock now => some { m with now := now }
  | .start kind now =>
    match m.refusal deadline kind with
    | some _ => some m
    | none =>
      let s := m.slots kind
      some { m with
        now := now
        slots := Function.update m.slots kind
          ⟨true, now, "", s.count + 1, (s.count, now) :: s.running⟩ }
  | .finish kind worker reason =>
    let s := m.slots kind
    if s.running.any (·.1 = worker) then
      let left := s.running.filter (·.1 ≠ worker)
      some { m with slots := Function.update m.slots kind ⟨false, s.started, reason, s.count, left⟩ }
    else none
  | .close => some { m with closed := true }

end UpdateManager

/-- The clock does not go back, and a worker finishes only if no later one of its kind was started. -/
def Orderly (m : UpdateManager) : Event → Prop
  | .clock now | .start _ now => m.now ≤ now
  | .finish kind worker _ => worker + 1 = (m.slots kind).count
  | .close => True

/-- A worker is the latest, whose start the fields keep, or was started at least the deadline ago. -/
structure Slot.Inv (now deadline : Int) (s : Slot) : Prop where
  numbered : ∀ w ∈ s.running, w.1 < s.count
  stale : ∀ w ∈ s.running, w.1 + 1 = s.count ∨ w.2 + deadline ≤ now
  latest : ∀ w ∈ s.running, w.1 + 1 = s.count → s.inFlight = true ∧ s.started = w.2

section Steps

variable {deadline} {m : UpdateManager} {s : Slot} {now next limit : Int}

theorem Slot.Inv.later (h : s.Inv now limit) (hnow : now ≤ next) : s.Inv next limit :=
  ⟨h.numbered, fun w hw => (h.stale w hw).imp_right fun hold => Int.le_trans hold hnow, h.latest⟩

theorem Slot.Inv.start (h : s.Inv now limit) (hnow : now ≤ next) (hfresh : s.fresh now limit = false) :
    (Slot.mk true next "" (s.count + 1) ((s.count, next) :: s.running)).Inv next limit := by
  have hold (w : ℕ × Int) (hw : w ∈ s.running) : w.1 ≠ s.count ∧ w.2 + limit ≤ next := by
    refine ⟨Nat.ne_of_lt (h.numbered w hw), ?_⟩
    rcases h.stale w hw with hlatest | hstale
    · -- the latest one is replaced only when it is stale
      obtain ⟨hflag, hstarted⟩ := h.latest w hw hlatest
      simp only [fresh, hflag, hstarted, Bool.true_and, decide_eq_false_iff_not] at hfresh
      omega
    · exact Int.le_trans hstale hnow
  refine ⟨?_, ?_, ?_⟩
  · exact List.forall_mem_cons.mpr ⟨Nat.lt_succ_self _, fun w hw => Nat.lt_succ_of_lt (h.numbered w hw)⟩
  · exact List.forall_mem_cons.mpr ⟨Or.inl rfl, fun w hw => Or.inr (hold w hw).2⟩
  · exact List.forall_mem_cons.mpr ⟨fun _ => ⟨rfl, rfl⟩, fun w hw he => absurd (Nat.succ.inj he) (hold w hw).1⟩

theorem Slot.Inv.finish (h : s.Inv now limit) {worker : ℕ} (hlast : worker + 1 = s.count) (reason : String) :
    (Slot.mk false s.started reason s.count (s.running.filter (·.1 ≠ worker))).Inv now limit := by
  have hold (w : ℕ × Int) (hw : w ∈ s.running.filter (·.1 ≠ worker)) : w ∈ s.running ∧ w.1 ≠ worker := by
    simpa using hw
  refine ⟨fun w hw => h.numbered w (hold w hw).1, fun w hw => h.stale w (hold w hw).1, fun w hw he => ?_⟩
  exact absurd (Nat.succ.inj (he.trans hlast.symm)) (hold w hw).2

def Inv (deadline : Kind → Int) (m : UpdateManager) : Prop := ∀ kind, (m.slots kind).Inv m.now (deadline kind)

theorem inv_update (h : Inv deadline m) (hnow : m.now ≤ next) {kind : Kind} {closed : Bool}
    (hs : s.Inv next (deadline kind)) : Inv deadline ⟨closed, next, Function.update m.slots kind s⟩ := by
  intro other
  dsimp only
  by_cases he : other = kind
  · rw [he, Function.update_self]
    exact hs
  · rw [Function.update_of_ne he]
    exact (h other).later hnow

theorem inv_step (m : UpdateManager) (e : Event) (m' : UpdateManager) (h : Inv deadline m) (he : Orderly m e)
    (hstep : m.step deadline e = some m') : Inv deadline m' := by
  cases e with
  | clock now =>
    cases hstep
    exact fun kind => (h kind).later he
  | start kind now =>
    rw [UpdateManager.step] at hstep
    cases hrefusal : m.refusal deadline kind with
    | some reason =>
      rw [hrefusal] at hstep
      exact Option.some.inj hstep ▸ h
    | none =>
      rw [hrefusal] at hstep
      have hfresh : m.fresh deadline kind = false := by
        unfold UpdateManager.refusal at hrefusal
        split_ifs at hrefusal with _ hfresh
        exact Bool.eq_false_iff.mpr hfresh
      exact Option.some.inj hstep ▸ inv_update h he ((h kind).start he hfresh)
  | finish kind worker reason =>
    rw [UpdateManager.step] at hstep
    split_ifs at hstep
    exact Option.some.inj hstep ▸ inv_update h (Int.le_refl _) ((h kind).finish he reason)
  | close =>
    cases hstep
    exact h

end Steps

/-- In a run where the clock does not go back and no worker finishes after a later one of its kind was
started, two workers of one kind that are running and were both started less than the deadline ago are
the same. -/
theorem one_fresh_worker {m m' : UpdateManager} {events : List Event} (hidle : ∀ kind, (m.slots kind).running = [])
    (hrun : StepRuns.run (UpdateManager.step deadline) m events = some m')
    (hmeet : StepRuns.AllMeet (UpdateManager.step deadline) Orderly m events) (kind : Kind) :
    ∀ v ∈ (m'.slots kind).running, ∀ w ∈ (m'.slots kind).running,
      m'.now - v.2 < deadline kind → m'.now - w.2 < deadline kind → v.1 = w.1 := by
  have hinit : Inv deadline m := fun kind => by
    have hnone := hidle kind
    constructor <;> simp [hnone]
  have hinv := StepRuns.inv_of_run inv_step hinit hmeet hrun kind
  intro v hv w hw hfresh hfresh'
  have hlatest := hinv.stale v hv
  have hlatest' := hinv.stale w hw
  omega

/-- A check that hangs is replaced, and the second one finishes in time. -/
def replaced : List Event := [.start .check 0, .clock 100, .start .check 100, .finish .check 1 ""]

theorem replaced_one_fresh : ∃ m, StepRuns.run (UpdateManager.step fun _ => 60) {} replaced = some m ∧
    ∀ v ∈ (m.slots .check).running, ∀ w ∈ (m.slots .check).running, m.now - v.2 < 60 → m.now - w.2 < 60 → v.1 = w.1 := by
  have hrun : StepRuns.run (UpdateManager.step fun _ => 60) {} replaced = some _ := rfl
  refine ⟨_, hrun, one_fresh_worker (fun _ => 60) (fun _ => rfl) hrun ?_ .check⟩
  have hpast : (0 : Int) ≤ 100 := by decide
  exact .cons (Int.le_refl 0) rfl (.cons hpast rfl (.cons (Int.le_refl 100) rfl (.cons rfl rfl trivial)))

/-- The check that was replaced finishes after all, and clears the flag of the one that replaced it: a third one
starts next to it. -/
theorem stale_finish_starts_two : ∃ m, StepRuns.run (UpdateManager.step fun _ => 60) {}
      [.start .check 0, .clock 100, .start .check 100, .finish .check 0 "", .start .check 101] = some m ∧
    (m.slots .check).running = [(2, 101), (1, 100)] ∧ m.now = 101 := ⟨_, rfl, rfl, rfl⟩

end PiBuddyCam.UpdateControl
