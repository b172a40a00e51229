import PiBuddyCam.Provisioning

/-! Runs of `load` and `advance` over one state file, where a process may hold several states and a
restart is a `load` after which the older ones are left alone; and runs of all calls on one state. -/
namespace PiBuddyCam.Provisioning

open ProvisioningState

/-- How one `save` ends: nothing written, written but reported as failed, or done. -/
inductive SaveOutcome where
  | failed | unreported | done
  deriving DecidableEq

def stateDisk : Machine StateFile (fun _ => Bool) StateFile SaveOutcome where
  step file written outcome := (decide (outcome = .done), if outcome = .failed then file else written)

inductive Event where
  /-- A load that cannot read the file takes it for unreadable. -/
  | load (readable : Bool)
  /-- `advance` of the state that the `i`th load made. -/
  | advance (i : ℕ) (now : String) (facts : Facts) (outcome : SaveOutcome)

structure Device where
  file : StateFile := .missing
  held : List ProvisioningState := []

def Facts.Claim (facts : Facts) : Prop := facts.adminPasswordSet = true ∧ facts.deviceValid = true

def Event.Observes : Event → Prop
  | .load _ => False
  | .advance _ _ facts _ => facts.Claim

def Observed (events : List Event) : Prop := ∃ e ∈ events, e.Observes

section Runs

variable (printable : Char → Bool)

def advanceOn (file : StateFile) (st : ProvisioningState) (now : String) (facts : Facts) (outcome : SaveOutcome) :
    (TransitionResult × ProvisioningState) × StateFile :=
  (st.advance printable Prog.op now facts).run stateDisk (fun _ => outcome) file

def Device.step (d : Device) : Event → Device
  | .load readable =>
    { d with held := d.held ++ [ProvisioningState.load printable (if readable then d.file else .unreadable)] }
  | .advance i now facts outcome =>
    match d.held[i]? with
    | none => d
    | some st =>
      let out := advanceOn printable d.file st now facts outcome
      { file := out.2, held := d.held.set i out.1.2 }

def deviceAfter (events : List Event) : Device := events.foldl (Device.step printable) {}

/-- The step clears a recovery for which the held state remembers no good state, and the
cleared state reaches the file. -/
def Device.ClearsForgotten (d : Device) : Event → Prop
  | .load _ => False
  | .advance i _ facts outcome => ∃ st, d.held[i]? = some st ∧ st.state = .recovery ∧ st.lastGood = none ∧
      facts.recoveryReason = "" ∧ outcome ≠ .failed

end Runs

section Backing

variable {printable : Char → Bool} {file : StateFile} {st : ProvisioningState} {outcome : SaveOutcome} {C : Prop}
variable {now reason : String} {facts : Facts}

/-- Where the state, or the good one it would go back to, is one of the camera's, `C` holds. -/
structure Backed (C : Prop) (st : ProvisioningState) : Prop where
  state : st.state ∈ cameraStates → C
  chain : ∀ g, st.lastGood = some g → g ∈ states
  lastGood : ∀ g, st.lastGood = some g → g ∈ cameraStates → C

def FileBacked (printable : Char → Bool) (C : Prop) (file : StateFile) : Prop :=
  (load printable file).state ∈ cameraStates → C

theorem fileBacked_of_factory (h : (load printable file).state = .factory) : FileBacked printable C file :=
  fun hmem => absurd (h ▸ hmem) (by decide)

theorem Backed.mono {D : Prop} (h : Backed C st) (hCD : C → D) : Backed D st :=
  ⟨fun hs => hCD (h.state hs), h.chain, fun g hg hc => hCD (h.lastGood g hg hc)⟩

theorem load_backed (h : FileBacked printable C file) : Backed C (load printable file) := by
  have hnone : (load printable file).lastGood = none := by cases file <;> rfl
  constructor
  · exact h
  all_goals
    intro g hg
    rw [hnone] at hg
    exact absurd hg nofun

theorem mem_states_of_ne_recovery {s : State} (h : s ≠ .recovery) : s ∈ states := by
  cases s with
  | recovery => exact absurd rfl h
  | _ => decide

theorem apply_backed {target : State} (h : Backed C st) (ht : target ∈ cameraStates → C) :
    Backed C (st.apply printable target reason now) := by
  by_cases hrec : target = .recovery
  · have hsame : (st.apply printable target reason now).lastGood = st.lastGood := by simp [apply, hrec]
    exact ⟨ht, fun g hg => h.chain g (hsame ▸ hg), fun g hg => h.lastGood g (hsame ▸ hg)⟩
  · have hnew : (st.apply printable target reason now).lastGood = some target := by simp [apply, hrec]
    have heq (g : State) (hg : (st.apply printable target reason now).lastGood = some g) : g = target :=
      Option.some.inj (hg.symm.trans hnew)
    exact ⟨ht, fun g hg => heq g hg ▸ mem_states_of_ne_recovery hrec, fun g hg => heq g hg ▸ ht⟩

theorem transition_backed {target : State} (h : Backed C st) (hf : FileBacked printable C file)
    (ht : outcome ≠ .failed → target ∈ cameraStates → C) :
    let out := (st.transition printable Prog.op (some target) reason now).run stateDisk (fun _ => outcome) file
    Backed C out.1.2 ∧ FileBacked printable C out.2 := by
  intro out
  by_cases hsame : target = st.state
  · have hout : out.1.2 = st ∧ out.2 = file := by simp [out, transition, hsame, Prog.run, pure]
    exact ⟨hout.1 ▸ h, hout.2 ▸ hf⟩
  by_cases hlegal : st.legal target = true
  · have hout : out = (st.transition printable Prog.op (some target) reason now).run stateDisk (fun _ => outcome) file :=
      rfl
    rw [transition] at hout
    simp only [hsame, hlegal, if_false, Bool.not_true, Bool.false_eq_true] at hout
    -- only a save that is done moves the held state; one that is not reported still moves the file
    cases outcome with
    | failed => exact hout ▸ ⟨h, hf⟩
    | unreported => exact hout ▸ ⟨h, ht nofun⟩
    | done => exact hout ▸ ⟨apply_backed h (ht nofun), ht nofun⟩
  · have hout : out.1.2 = st ∧ out.2 = file := by simp [out, transition, hsame, hlegal, Prog.run, pure]
    exact ⟨hout.1 ▸ h, hout.2 ▸ hf⟩

theorem milestone_claim (h : milestone facts ∈ cameraStates) : facts.Claim := by
  unfold milestone at h
  split_ifs at h with _ _ hclaim
  · exact absurd h (by decide)
  · exact absurd h (by decide)
  · exact absurd h (by decide)
  all_goals
    rw [Bool.not_eq_true', Bool.not_eq_false, Bool.and_eq_true] at hclaim
    exact hclaim

theorem camera_of_forward {s t : State} (ht : t ≠ .recovery) (h : states.idxOf s < states.idxOf t)
    (hstep : states.getD (states.idxOf s + 1) .factory ∈ cameraStates) : t ∈ cameraStates := by
  revert h hstep
  cases t with
  | recovery => exact absurd rfl ht
  | _ => cases s <;> decide

theorem camera_of_backward {s : State} (hs : s ≠ .recovery)
    (hstep : states.getD (states.idxOf s - 1) .factory ∈ cameraStates) : s ∈ cameraStates := by
  revert hstep
  cases s with
  | recovery => exact absurd rfl hs
  | _ => decide

theorem recover_backed (h : Backed C st) (hf : FileBacked printable C file)
    (hforgot : st.state = .recovery → st.lastGood = none → outcome ≠ .failed → C) :
    let out := (st.recover printable Prog.op now).run stateDisk (fun _ => outcome) file
    Backed C out.1.2 ∧ FileBacked printable C out.2 := by
  by_cases hrec : st.state = .recovery
  · rw [recover, if_neg (not_not.mpr hrec)]
    apply transition_backed h hf
    intro hout hmem
    cases hgood : st.lastGood with
    | none => exact hforgot hrec hgood hout
    | some g =>
      have hback : (st.lastGood.filter states.contains).getD .configured = g := by
        simp [hgood, Option.filter, h.chain g hgood]
      exact h.lastGood g hgood (hback ▸ hmem)
  · rw [recover, if_pos hrec]
    exact ⟨h, hf⟩

/-- What one `advance` keeps: `C` must follow from the facts it observes, and from a recovery
that it clears with no good state to go back to. -/
theorem advance_backed (h : Backed C st) (hf : FileBacked printable C file) (hclaim : facts.Claim → C)
    (hforgot : st.state = .recovery → st.lastGood = none → facts.recoveryReason = "" → outcome ≠ .failed → C) :
    Backed C (advanceOn printable file st now facts outcome).1.2 ∧
      FileBacked printable C (advanceOn printable file st now facts outcome).2 := by
  have hrecovery : State.recovery ∈ cameraStates → C := fun hmem => absurd hmem (by decide)
  unfold advanceOn advance
  split
  · rename_i hrec
    by_cases hreason : facts.recoveryReason = ""
    · rw [if_neg (not_not.mpr hreason)]
      exact recover_backed h hf (fun hs hg => hforgot hs hg hreason)
    · rw [if_pos hreason]
      exact transition_backed h hf (fun _ => hrecovery)
  rename_i hrec
  by_cases hreason : facts.recoveryReason = ""
  case neg =>
    rw [if_pos hreason]
    exact transition_backed h hf (fun _ => hrecovery)
  rw [if_neg (not_not.mpr hreason)]
  dsimp only
  split_ifs with hinvalid hsame hup
  · exact transition_backed h hf (fun _ => hrecovery)
  · exact ⟨h, hf⟩
  · apply transition_backed h hf
    intro _ hmem
    exact hclaim (milestone_claim (camera_of_forward (milestone_ne_recovery facts) hup hmem))
  · apply transition_backed h hf
    intro _ hmem
    exact h.state (camera_of_backward hrec hmem)

theorem advance_forgotten (hs : st.state = .recovery) (hg : st.lastGood = none) (hr : facts.recoveryReason = "")
    (ho : outcome ≠ .failed) :
    (load printable (advanceOn printable file st now facts outcome).2).state = .configured := by
  have hclear : st.advance printable Prog.op now facts = st.recover printable Prog.op now := by
    rw [advance, if_pos hs, hr, if_neg (not_not.mpr rfl)]
  rw [advanceOn, hclear]
  obtain ⟨state, _, _, lastGood⟩ := st
  dsimp only at hs hg
  subst hs hg
  cases outcome with
  | failed => exact absurd rfl ho
  | unreported => rfl
  | done => rfl

end Backing

section Reached

variable {printable : Char → Bool}

theorem deviceAfter_append (events : List Event) (e : Event) :
    deviceAfter printable (events ++ [e]) = (deviceAfter printable events).step printable e := by
  rw [deviceAfter, List.foldl_append]
  rfl

structure Device.Backed (printable : Char → Bool) (C : Prop) (d : Device) : Prop where
  file : FileBacked printable C d.file
  held : ∀ st ∈ d.held, Provisioning.Backed C st

theorem Device.Backed.mono {C D : Prop} {d : Device} (h : d.Backed printable C) (hCD : C → D) :
    d.Backed printable D :=
  ⟨fun hs => hCD (h.file hs), fun st hst => (h.held st hst).mono hCD⟩

theorem Device.Backed.step {C : Prop} {d : Device} {e : Event} (h : d.Backed printable C) (hobs : e.Observes → C)
    (hclear : d.ClearsForgotten e → C) : (d.step printable e).Backed printable C := by
  cases e with
  | load readable =>
    refine ⟨h.file, fun st hst => ?_⟩
    rcases List.mem_append.mp hst with hold | hnew
    · exact h.held st hold
    · rw [List.mem_singleton.mp hnew]
      cases readable with
      | true => exact load_backed h.file
      | false => exact load_backed (fileBacked_of_factory rfl)
  | advance i now facts outcome =>
    cases hget : d.held[i]? with
    | none =>
      rw [Device.step, hget]
      exact h
    | some st =>
      have hst : Provisioning.Backed C st := h.held st (List.mem_of_getElem? hget)
      have hout := @advance_backed printable d.file st outcome C now facts hst h.file hobs
        (fun hs hg hr ho => hclear ⟨st, hget, hs, hg, hr, ho⟩)
      rw [Device.step, hget]
      refine ⟨hout.2, fun st' hst' => ?_⟩
      rcases List.mem_or_eq_of_mem_set hst' with hold | hnew
      · exact h.held st' hold
      · exact hnew ▸ hout.1

theorem Observed.append {events : List Event} (h : Observed events) (e : Event) : Observed (events ++ [e]) :=
  let ⟨e', he', hobs⟩ := h
  ⟨e', List.mem_append_left _ he', hobs⟩

theorem deviceAfter_backed {events : List Event}
    (h : ∀ past e rest, events = past ++ e :: rest → (deviceAfter printable past).ClearsForgotten e →
      Observed (past ++ [e])) :
    (deviceAfter printable events).Backed printable (Observed events) := by
  induction events using List.reverseRecOn with
  | nil => exact ⟨fileBacked_of_factory rfl, nofun⟩
  | append_singleton events e ih =>
    have hbefore : (deviceAfter printable events).Backed printable (Observed events) := by
      apply ih
      intro past e' rest heq
      exact h past e' (rest ++ [e]) (by rw [heq, List.append_assoc]; rfl)
    rw [deviceAfter_append]
    apply (hbefore.mono fun hobs => hobs.append e).step
    · intro hobs
      exact ⟨e, List.mem_append_right _ List.mem_cons_self, hobs⟩
    · exact h events e [] rfl

theorem resolveMode_eq_camera {file : StateFile} :
    resolveMode printable file = .camera ↔ (load printable file).state ∈ cameraStates := by
  simp [resolveMode]

/-- The camera's states are persisted, and its boot mode selected, only after a claim was observed,
exactly when every recovery without a remembered good state is cleared only after such an observation. -/
theorem camera_state_after_claim_iff (printable : Char → Bool) (events : List Event) :
    (∀ past rest, events = past ++ rest →
      ((load printable (deviceAfter printable past).file).state ∈ cameraStates → Observed past) ∧
        (resolveMode printable (deviceAfter printable past).file = .camera → Observed past)) ↔
      ∀ past e rest, events = past ++ e :: rest → (deviceAfter printable past).ClearsForgotten e →
        Observed (past ++ [e]) := by
  constructor
  · intro h past e rest heq hclear
    cases e with
    | load _ => exact hclear.elim
    | advance i now facts outcome =>
      obtain ⟨st, hget, hs, hg, hr, ho⟩ := hclear
      have hfile : (deviceAfter printable (past ++ [.advance i now facts outcome])).file =
          (advanceOn printable (deviceAfter printable past).file st now facts outcome).2 := by
        rw [deviceAfter_append, Device.step, hget]
      have heq' : events = (past ++ [.advance i now facts outcome]) ++ rest := by
        rw [heq, List.append_assoc]
        rfl
      apply (h _ _ heq').1
      rw [hfile, advance_forgotten hs hg hr ho]
      decide
  · intro h past rest heq
    have hpast : (deviceAfter printable past).Backed printable (Observed past) := by
      apply deviceAfter_backed
      intro past' e rest' heq'
      exact h past' e (rest' ++ rest) (by rw [heq, heq', List.append_assoc]; rfl)
    exact ⟨hpast.file, fun hmode => hpast.file (resolveMode_eq_camera.mp hmode)⟩

/-- A factory device that goes into recovery, restarts and is asked to advance boots the camera, though
no password and no configuration were ever seen. -/
def recoveredFactory : List Event :=
  [.load true, .advance 0 "t0" { recoveryReason := "sentinel" } .done, .load true, .advance 1 "t1" {} .done]

theorem recoveredFactory_boots_camera :
    (load (fun _ => true) (deviceAfter (fun _ => true) recoveredFactory).file).state = .configured ∧
      resolveMode (fun _ => true) (deviceAfter (fun _ => true) recoveredFactory).file = .camera ∧
      ¬ Observed recoveredFactory := by
  refine ⟨rfl, rfl, ?_⟩
  simp [Observed, recoveredFactory, Event.Observes, Facts.Claim]

end Reached

section Calls

inductive Call where
  | transition (goal : Option State) (reason now : String)
  | advance (now : String) (facts : Facts)
  | recover (now : String)

/-- Keeps the content of the last save that succeeded. -/
def lastSave : Machine StateFile (fun _ => Bool) StateFile Bool where
  step last written ok := (ok, if ok then written else last)

/-- A state in memory, and what its last successful save wrote (before any, what was loaded). -/
structure Held where
  st : ProvisioningState
  saved : StateFile

variable (printable : Char → Bool)

def Call.prog (st : ProvisioningState) : Call → Prog StateFile (fun _ => Bool) (TransitionResult × ProvisioningState)
  | .transition goal reason now => st.transition printable Prog.op goal reason now
  | .advance now facts => st.advance printable Prog.op now facts
  | .recover now => st.recover printable Prog.op now

def Held.step (h : Held) (call : Call × Bool) : Held :=
  let out := (call.1.prog printable h.st).run lastSave (fun _ => call.2) h.saved
  ⟨out.1.2, out.2⟩

/-- All that a call can do: leave everything as it was, or take a legal edge with a save that succeeds. -/
inductive Held.Moved (ok : Bool) (h : Held) : Held → Prop where
  | stays : Moved ok h h
  | moves {target : State} {reason now : String} (hok : ok = true) (hlegal : h.st.legal target = true) :
      Moved ok h ⟨h.st.apply printable target reason now, (h.st.apply printable target reason now).payload⟩

variable {printable} {h : Held}

theorem Call.prog_cases (st : ProvisioningState) (call : Call) :
    (∃ result, call.prog printable st = pure (result, st)) ∨
      ∃ goal reason now, call.prog printable st = st.transition printable Prog.op goal reason now := by
  cases call with
  | transition goal reason now => exact .inr ⟨goal, reason, now, rfl⟩
  | advance now facts =>
    dsimp only [prog]
    unfold ProvisioningState.advance ProvisioningState.recover
    dsimp only
    split_ifs
    all_goals first | exact .inr ⟨_, _, _, rfl⟩ | exact .inl ⟨_, rfl⟩
  | recover now =>
    dsimp only [prog]
    unfold ProvisioningState.recover
    split_ifs
    · exact .inl ⟨_, rfl⟩
    · exact .inr ⟨_, _, _, rfl⟩

theorem Held.step_moved (h : Held) (call : Call) (ok : Bool) : h.Moved printable ok (h.step printable (call, ok)) := by
  unfold Held.step
  rcases call.prog_cases h.st with ⟨result, hpure⟩ | ⟨goal, reason, now, hcall⟩
  · rw [hpure]
    exact .stays
  rw [hcall]
  unfold ProvisioningState.transition
  cases goal with
  | none => exact .stays
  | some target =>
    dsimp only
    split_ifs with hsame hillegal
    · exact .stays
    · exact .stays
    · -- the one branch that saves; a failed save puts the snapshot back
      cases ok with
      | false => exact .stays
      | true => exact .moves rfl (by simpa using hillegal)

section Moved

variable {ok : Bool} {h' : Held} (hmoved : h.Moved printable ok h')
include hmoved

theorem Held.Moved.saved (hsaved : h.saved = h.st.payload) : h'.saved = h'.st.payload := by
  cases hmoved with
  | stays => exact hsaved
  | moves => rfl

theorem Held.Moved.eq_of_failed (hok : ok = false) : h' = h := by
  cases hmoved with
  | stays => rfl
  | moves hsave => exact absurd hsave (by rw [hok]; exact Bool.false_ne_true)

theorem Held.Moved.edge (hne : h'.st.state ≠ h.st.state) (hs : h.st.state ≠ .recovery)
    (ht : h'.st.state ≠ .recovery) : h.st.state.next = some h'.st.state := by
  cases hmoved with
  | stays => exact absurd rfl hne
  | @moves target _ _ _ hlegal =>
    have htarget : target ≠ .recovery := ht
    rw [ProvisioningState.legal, if_neg htarget, if_neg hs] at hlegal
    exact eq_of_beq hlegal

end Moved

theorem Held.saved_of_calls (hsaved : h.saved = h.st.payload) (calls : List (Call × Bool)) :
    (calls.foldl (Held.step printable) h).saved = (calls.foldl (Held.step printable) h).st.payload := by
  induction calls generalizing h with
  | nil => exact hsaved
  | cons e calls ih => exact ih ((h.step_moved e.1 e.2).saved hsaved)

/-- Whatever is called and whichever saves fail, the state in memory is what the last successful save
wrote, a call whose save fails leaves every field as it was, and a call that moves the state takes one
edge of the chain unless it enters or leaves recovery. -/
theorem held_eq_saved (printable : Char → Bool) (loaded : ProvisioningState) (calls : List (Call × Bool))
    (call : Call) (ok : Bool) :
    let h := calls.foldl (Held.step printable) ⟨loaded, loaded.payload⟩
    let h' := h.step printable (call, ok)
    h.saved = h.st.payload ∧ (ok = false → h'.st = h.st) ∧
      (h'.st.state ≠ h.st.state → h.st.state ≠ .recovery → h'.st.state ≠ .recovery →
        h.st.state.next = some h'.st.state) := by
  intro h h'
  have hmoved : h.Moved printable ok h' := h.step_moved call ok
  exact ⟨Held.saved_of_calls rfl calls, fun hok => congrArg Held.st (hmoved.eq_of_failed hok), hmoved.edge⟩

end Calls

end PiBuddyCam.Provisioning
