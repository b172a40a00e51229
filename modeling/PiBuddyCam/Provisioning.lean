import PiBuddyCam.CrashProg
import PiBuddyCam.PyText

/-! `provisioning.py`: the chain of states a device passes through while it is set up, the
facts it advances on, and the file the state is kept in; with the decisions that
`boot_mode.py` and `camera_probe.py` take from the state. -/
namespace PiBuddyCam.Provisioning

inductive State where
  | factory | storageReady | cameraValidated | unclaimed | claimed | configured | running | recovery
  deriving DecidableEq

namespace State

def name : State → String
  | factory => "factory"
  | storageReady => "storage_ready"
  | cameraValidated => "camera_validated"
  | unclaimed => "unclaimed"
  | claimed => "claimed"
  | configured => "configured"
  | running => "running"
  | recovery => "recovery"

def next : State → Option State
  | factory => some storageReady
  | storageReady => some cameraValidated
  | cameraValidated => some unclaimed
  | unclaimed => some claimed
  | claimed => some configured
  | configured => some running
  | running | recovery => none

end State

def states : List State :=
  [.factory, .storageReady, .cameraValidated, .unclaimed, .claimed, .configured, .running]

structure Facts where
  storageReady : Bool := false
  cameraValidated : Bool := false
  adminPasswordSet : Bool := false
  deviceValid : Bool := false
  prusaTokenSet : Bool := false
  cameraRunning : Bool := false
  recoveryReason : String := ""

def milestone (facts : Facts) : State :=
  if !facts.storageReady then .factory
  else if !facts.cameraValidated then .storageReady
  else if !(facts.adminPasswordSet && facts.deviceValid) then .unclaimed
  else if !facts.prusaTokenSet then .claimed
  else if !facts.cameraRunning then .configured
  else .running

structure TransitionResult where
  ok : Bool
  reason : String
  state : State
  previous : Option State := none
  persisted : Bool := false

/-- What a reader finds in the state file: nothing, no JSON, another JSON value, or an
object. A field is `none` when it is missing or not what the reader looks for. -/
inductive StateFile where
  | missing | unreadable | notObject
  | object (state : Option State) (reason updatedAt : Option String)

structure ProvisioningState where
  state : State := .factory
  reason : String := ""
  updatedAt : String := ""
  lastGood : Option State := none

def sanitizeReason (printable : Char → Bool) (reason : String) : String :=
  PyText.take 200 (PyText.strip (String.ofList
    (reason.toList.filter fun c => printable c && !(['\r', '\n', '\t'].contains c))))

namespace ProvisioningState

variable (printable : Char → Bool)

def load : StateFile → ProvisioningState
  | .missing => {}
  | .unreadable => { reason := "provisioning state unreadable" }
  | .notObject => { reason := "provisioning state is not an object" }
  | .object state reason updatedAt =>
    { state := state.getD .factory
      reason :=
        match reason with
        | some text =>
          if text ≠ "" then sanitizeReason printable text
          else if state.isSome then "" else "provisioning state value is invalid"
        | none => if state.isSome then "" else "provisioning state value is invalid"
      updatedAt := updatedAt.getD "" }

def payload (st : ProvisioningState) : StateFile := .object (some st.state) (some st.reason) (some st.updatedAt)

def legal (st : ProvisioningState) (target : State) : Bool :=
  if target = .recovery then states.contains st.state
  else if st.state = .recovery then states.contains target
  else st.state.next == some target

def apply (st : ProvisioningState) (target : State) (reason now : String) : ProvisioningState :=
  { state := target
    reason := sanitizeReason printable reason
    updatedAt := now
    lastGood := if target ≠ .recovery then some target else st.lastGood }

section Moves

variable {Op : Type} {Res : Op → Type} (save : StateFile → Prog Op Res Bool)

/-- `transition`; the target is `none` for a value that is no state. -/
def transition (st : ProvisioningState) (goal : Option State) (reason now : String) :
    Prog Op Res (TransitionResult × ProvisioningState) :=
  match goal with
  | none => pure (⟨false, "unknown provisioning state", st.state, none, false⟩, st)
  | some target =>
    if target = st.state then pure (⟨true, "already in state", st.state, some st.state, false⟩, st)
    else if !st.legal target then
      pure (⟨false, "illegal transition " ++ st.state.name ++ " -> " ++ target.name, st.state, none, false⟩, st)
    else do
      let applied := st.apply printable target reason now
      if ← save applied.payload then
        pure (⟨true, applied.reason, applied.state, some st.state, true⟩, applied)
      else
        pure (⟨false, "durable storage unavailable; state not persisted", st.state, none, false⟩, st)

def recover (st : ProvisioningState) (now : String) : Prog Op Res (TransitionResult × ProvisioningState) :=
  if st.state ≠ .recovery then pure (⟨false, "not in recovery", st.state, none, false⟩, st)
  else
    let target := st.lastGood.filter states.contains
    st.transition printable save (some (target.getD .configured)) "recovery cleared" now

def advance (st : ProvisioningState) (now : String) (facts : Facts) :
    Prog Op Res (TransitionResult × ProvisioningState) :=
  if st.state = .recovery then
    if facts.recoveryReason ≠ "" then
      st.transition printable save (some .recovery) facts.recoveryReason now
    else st.recover printable save now
  else if facts.recoveryReason ≠ "" then
    st.transition printable save (some .recovery) facts.recoveryReason now
  else
    let index := states.idxOf st.state
    if index ≥ states.idxOf .claimed ∧
        (!facts.storageReady || (facts.adminPasswordSet && !facts.deviceValid)) then
      st.transition printable save (some .recovery) "durable configuration is invalid" now
    else
      let target := states.idxOf (milestone facts)
      if target = index then pure (⟨true, "no change", st.state, some st.state, false⟩, st)
      else
        let step := states.getD (if target > index then index + 1 else index - 1) .factory
        st.transition printable save (some step) ("advanced to " ++ step.name) now

end Moves

end ProvisioningState

/-- `boot_mode.py`: the runtimes a boot can select. -/
inductive Mode where
  | provisioning | camera
  deriving DecidableEq

def cameraStates : List State := [.claimed, .configured, .running]

def resolveMode (printable : Char → Bool) (file : StateFile) : Mode :=
  if cameraStates.contains (ProvisioningState.load printable file).state then .camera else .provisioning

def preRuntimeStates : List State := [.factory, .storageReady, .cameraValidated, .unclaimed, .claimed]

/-- `camera_probe.sensor_handoff_allowed`; the state is `none` for a text that names none. -/
def sensorHandoffAllowed (state : Option State) (cameraRunning : Bool) : Bool × String :=
  match state with
  | none => (false, "unknown provisioning state")
  | some s =>
    if !preRuntimeStates.contains s then (false, "probing is not allowed in state " ++ s.name)
    else if cameraRunning then (false, "camera source is running; release libcamera before probing")
    else (true, "sensor hand-off allowed")

theorem sensorHandoffAllowed_eq_true {state : Option State} {cameraRunning : Bool}
    (h : (sensorHandoffAllowed state cameraRunning).1 = true) : ∃ s ∈ preRuntimeStates, state = some s := by
  cases state with
  | none => exact absurd h Bool.false_ne_true
  | some s =>
    by_cases hs : s ∈ preRuntimeStates
    · exact ⟨s, hs, rfl⟩
    · simp [sensorHandoffAllowed, hs] at h

section Within

variable {printable : Char → Bool} {Op : Type} {Res : Op → Type} {save : StateFile → Prog Op Res Bool} {P : Op → Prop}

theorem ProvisioningState.transition_within (hsave : ∀ f, (save f).Within P) (st : ProvisioningState)
    (goal : Option State) (reason now : String) : (st.transition printable save goal reason now).Within P := by
  unfold transition
  split
  · trivial
  · split_ifs
    · trivial
    · trivial
    · apply (hsave _).bind
      intro ok
      cases ok <;> trivial

theorem ProvisioningState.advance_within (hsave : ∀ f, (save f).Within P) (st : ProvisioningState) (now : String)
    (facts : Facts) : (st.advance printable save now facts).Within P := by
  unfold advance recover
  dsimp only
  split_ifs
  all_goals first | exact transition_within hsave _ _ _ _ | trivial

end Within

section Saved

open ProvisioningState

variable {printable : Char → Bool}
variable {Op : Type} {Res : Op → Type} {σ ι : Type} {m : Machine Op Res σ ι} {A : ι → Prop}
variable {save : StateFile → Prog Op Res Bool} {file : σ → StateFile}

structure Facts.Steady (facts : Facts) : Prop where
  reason : facts.recoveryReason = ""
  storage : facts.storageReady = true
  device : facts.deviceValid = true

def Facts.lead (facts : Facts) (s : State) : State :=
  if s = .recovery then .configured
  else if states.idxOf s < states.idxOf (milestone facts) then s.next.getD s
  else s

/-- The file on the disk holds the state, and a state read from a file while in recovery
remembers no good one. -/
structure Mirrors (printable : Char → Bool) (st : ProvisioningState) (f : StateFile) : Prop where
  state : (load printable f).state = st.state
  unremembered : st.state = .recovery → st.lastGood = none

theorem mirrors_load (f : StateFile) : Mirrors printable (load printable f) f := by
  refine ⟨rfl, fun _ => ?_⟩
  cases f <;> rfl

variable {st : ProvisioningState}

theorem transition_saved {d : σ} {target : State} {reason now : String}
    (hsave : ∀ f d, Prog.Safe m A (fun _ => True) (save f) (fun ok d' => ok = true ∧ file d' = f) d)
    (hst : Mirrors printable st (file d)) (ht : target ≠ .recovery) :
    Prog.Safe m A (fun _ => True) (st.transition printable save (some target) reason now)
      (fun out d' => Mirrors printable out.2 (file d') ∧
        out.2.state = (if st.legal target then target else st.state) ∧
        (out.1.ok = false → out.2.state = st.state)) d := by
  unfold transition
  dsimp only
  split
  · rename_i heq
    exact ⟨hst, by rw [heq, ite_self], fun _ => rfl⟩
  by_cases hlegal : st.legal target = true
  · rw [hlegal, Bool.not_true, if_neg Bool.false_ne_true, if_pos rfl]
    apply (hsave _ d).bind
    rintro ok d' ⟨rfl, hfile⟩
    exact ⟨⟨by rw [hfile]; rfl, fun h => absurd h ht⟩, rfl, (nomatch ·)⟩
  · rw [Bool.not_eq_true] at hlegal
    rw [hlegal, Bool.not_false, if_pos rfl, if_neg Bool.false_ne_true]
    exact ⟨hst, rfl, fun _ => rfl⟩

theorem legal_forward {t : State} (hs : st.state ≠ .recovery)
    (h : states.idxOf st.state < states.idxOf t) (ht : t ≠ .recovery) :
    states.getD (states.idxOf st.state + 1) .factory = st.state.next.getD st.state ∧
      st.legal (st.state.next.getD st.state) = true ∧ st.state.next.getD st.state ≠ .recovery := by
  obtain ⟨s, reason, updatedAt, lastGood⟩ := st
  dsimp only at hs h ⊢
  cases s with
  | running => cases t <;> first | exact absurd rfl ht | exact absurd h (by decide)
  | recovery => exact absurd rfl hs
  | _ => exact ⟨rfl, rfl, nofun⟩

theorem illegal_backward (hs : st.state ≠ .recovery) (h : 0 < states.idxOf st.state) :
    st.legal (states.getD (states.idxOf st.state - 1) .factory) = false ∧
      states.getD (states.idxOf st.state - 1) .factory ≠ .recovery := by
  obtain ⟨s, reason, updatedAt, lastGood⟩ := st
  dsimp only at hs h ⊢
  cases s with
  | factory => exact absurd h (by decide)
  | recovery => exact absurd rfl hs
  | _ => exact ⟨rfl, by decide⟩

theorem milestone_ne_recovery (facts : Facts) : milestone facts ≠ .recovery := by
  unfold milestone
  split_ifs <;> nofun

theorem advance_saved {d : σ} {now : String} {facts : Facts}
    (hsave : ∀ f d, Prog.Safe m A (fun _ => True) (save f) (fun ok d' => ok = true ∧ file d' = f) d)
    (hst : Mirrors printable st (file d)) (hf : facts.Steady) :
    Prog.Safe m A (fun _ => True) (st.advance printable save now facts)
      (fun out d' => Mirrors printable out.2 (file d') ∧ out.2.state = facts.lead st.state ∧
        (out.1.ok = false → out.2.state = st.state)) d := by
  unfold advance Facts.lead
  by_cases hrec : st.state = .recovery
  · -- a loaded recovery goes to `configured`, whatever the milestone
    have hlegal : st.legal .configured = true := by simp [legal, hrec, states]
    rw [if_pos hrec, hf.reason, if_neg (not_not.mpr rfl), if_pos hrec, recover,
      if_neg (not_not.mpr hrec), hst.unremembered hrec]
    refine (transition_saved hsave hst (by decide)).post ?_
    rintro out d' ⟨hm, hstate, hok⟩
    exact ⟨hm, hstate.trans (if_pos hlegal), hok⟩
  rw [if_neg hrec, hf.reason, if_neg (not_not.mpr rfl), if_neg hrec]
  simp only [hf.storage, hf.device, Bool.not_true, Bool.and_false, Bool.or_self, Bool.false_eq_true, and_false,
    if_false]
  rcases lt_trichotomy (states.idxOf st.state) (states.idxOf (milestone facts)) with hlt | heq | hgt
  · obtain ⟨hnext, hlegal, hne⟩ := legal_forward hrec hlt (milestone_ne_recovery facts)
    rw [if_neg hlt.ne', if_pos hlt, if_pos hlt, hnext]
    refine (transition_saved hsave hst hne).post ?_
    rintro out d' ⟨hm, hstate, hok⟩
    exact ⟨hm, hstate.trans (if_pos hlegal), hok⟩
  · rw [if_pos heq.symm, if_neg heq.not_lt]
    exact ⟨hst, rfl, fun _ => rfl⟩
  · obtain ⟨hlegal, hne⟩ := illegal_backward hrec (Nat.zero_lt_of_lt hgt)
    rw [if_neg hgt.ne, if_neg hgt.not_gt, if_neg hgt.not_gt]
    refine (transition_saved hsave hst hne).post ?_
    rintro out d' ⟨hm, hstate, hok⟩
    exact ⟨hm, hstate.trans (if_neg (by rw [hlegal]; exact Bool.false_ne_true)), hok⟩

end Saved

end PiBuddyCam.Provisioning
