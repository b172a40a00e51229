import PiBuddyCam.SettingsAtomicity
import PiBuddyCam.StepRuns

/-! The loop of `app/main.py` that uploads `/c/info`, with the settings changes that can come in at
any of its waits. -/
namespace PiBuddyCam.Info

open Settings

/-- The result classes of `http_result`. -/
inductive ResultClass where
  | success
  | redirect
  | blocked
  | clientError
  | serverError
  | timeout
  | connectionError
  deriving DecidableEq

def isRetryable (r : ResultClass) : Bool := r ∈ [.blocked, .serverError, .timeout, .connectionError]

def maxInfoRetries : ℕ := 10

def shouldRetry (r : ResultClass) (failures : ℕ) : Bool := isRetryable r && failures < maxInfoRetries

def nextInfoAction (dirty : Bool) (countdown : ℕ) : Bool × ℕ :=
  if dirty then if countdown = 0 then (true, 0) else (false, countdown - 1) else (false, countdown)

def infoDirtyAfterResult (r : ResultClass) (failures : ℕ) : Bool :=
  if r = .success then false else shouldRetry r failures

/-- `countdown_after_result`, the delay in whole seconds. -/
def countdownAfterResult (r : ResultClass) (failures : ℕ) : ℕ :=
  if shouldRetry r failures then max 10 (min (2^failures) 30) else 0

/-- What `build_info_body` reads from the state: the name, and the resolution after rotation. -/
def infoFields (s : CameraState) : String × (ℕ × ℕ) :=
  (s.cameraName, if s.rotation = 90 ∨ s.rotation = 270 then (resolution s.quality).swap else resolution s.quality)

/-- `flight` is the body of the upload that is waited for, `uploaded` the last one that succeeded. -/
structure State where
  world : World
  countdown : ℕ := 0
  failures : ℕ := 0
  flight : Option (String × (ℕ × ℕ)) := none
  uploaded : Option (String × (ℕ × ℕ)) := none

def State.dirty (s : State) : Bool := s.world.camera.infoDirty

def State.setDirty (s : State) (dirty : Bool) : State :=
  { s with world := { s.world with camera := { s.world.camera with infoDirty := dirty } } }

/-- A settings change, the end of the sleep of one second, or the end of an upload; an upload that
raises is a `connection_error`. -/
inductive Event where
  | change (env : Env) (m : Mutation)
  | wake
  | answered (r : ResultClass)

variable (zones : List String)

def step (s : State) : Event → Option State
  | .change env m =>
    -- what `main` injects to publish is `mark_info_dirty`, which does not raise
    some { s with world := (m.run zones { env with publish := .returns () } s.world).2 }
  | .wake =>
    if s.flight.isSome then none
    else
      let action := nextInfoAction s.dirty s.countdown
      if action.1 then some { s with countdown := action.2, flight := some (infoFields s.world.camera) }
      else some { s with countdown := action.2, failures := if s.dirty then s.failures else 0 }
  | .answered r =>
    match s.flight with
    | none => none
    | some body =>
      if r = .success then
        some { s.setDirty false with countdown := 0, failures := 0, flight := none, uploaded := some body }
      else
        some { s.setDirty (infoDirtyAfterResult r s.failures) with
          countdown := countdownAfterResult r s.failures, failures := s.failures + 1, flight := none }

/-- While nothing is to be uploaded or waited for, the last body that was uploaded shows the state. -/
def State.Current (s : State) : Prop :=
  s.dirty = false → s.flight = none → ∀ body, s.uploaded = some body → body = infoFields s.world.camera

/-- No change comes in during an upload or is torn, and no upload is given up. -/
def Calm (s : State) : Event → Prop
  | .change env m => s.flight = none ∧ ¬TornQuality { env with publish := .returns () } s.world m
  | .wake => True
  | .answered r => r = .success ∨ shouldRetry r s.failures = true

section Marks

variable {zones : List String} {env : Env} {w : World}

/-- An accepted mutation has marked the state. -/
def Marks (o : Outcome) : Prop := o.1.ok = true → o.2.camera.infoDirty = true

theorem marks_refuse (w : World) (reason : String) : Marks (w.refuse reason) := fun h => Bool.noConfusion h

theorem publishState_dirty (hpublish : env.publish = .returns ()) (w : World) :
    (w.publishState env).camera.infoDirty = true := by
  rw [World.publishState, hpublish]
  rfl

theorem marks_commit (hpublish : env.publish = .returns ()) (w : World) (changed : List String) :
    Marks (w.commit env changed) := fun _ => publishState_dirty hpublish _

theorem marks_commitAndArm (hpublish : env.publish = .returns ()) (w : World) (changed : List String) :
    Marks (w.commitAndArm env changed) := by
  intro _
  have hquiet : Quiet (w.commit env changed).2 ((w.commit env changed).2.applyGpio env) := applyGpio_quiet _
  rw [World.commitAndArm, hquiet.camera]
  exact publishState_dirty hpublish _

theorem marks_setQuality (hpublish : env.publish = .returns ()) (raw : Value) (persist : Bool) :
    Marks (w.setQuality env raw persist) := by
  cases hlive : w.liveTier env raw with
  | none =>
    obtain ⟨w', reason, -, heq⟩ := setQuality_refused persist hlive
    exact heq ▸ marks_refuse w' reason
  | some tier =>
    obtain ⟨w', -, heq⟩ := setQuality_live persist hlive
    rw [heq]
    split_ifs
    · exact marks_commit hpublish _ _
    · exact marks_refuse _ _
    · exact fun _ => publishState_dirty hpublish _

theorem marks_setThrough (hpublish : env.publish = .returns ()) (set : Bool × CameraState) (reason key : String) :
    Marks (w.setThrough env set reason key) := by
  rw [World.setThrough]
  split_ifs
  · exact marks_commit hpublish _ _
  · exact marks_refuse _ _

theorem marks_setAndArm (hpublish : env.publish = .returns ()) (set : Bool × CameraState) (reason key : String) :
    Marks (w.setAndArm env set reason key) := by
  rw [World.setAndArm]
  split_ifs
  · exact marks_commitAndArm hpublish _ _
  · exact marks_refuse _ _

theorem marks_setAfter (hpublish : env.publish = .returns ()) (hook : Option (Reply Bool)) (call : ServiceCall)
    (set : CameraState) (reason key : String) : Marks (w.setAfter env hook call set reason key) := by
  unfold World.setAfter
  split
  · exact marks_refuse _ _
  · split_ifs
    · exact marks_commit hpublish _ _
    · exact marks_refuse _ _

theorem marks_run (hpublish : env.publish = .returns ()) (m : Mutation) : Marks (m.run zones env w) := by
  unfold Mutation.run World.applyMutation World.mutate
  repeat' split
  all_goals first
    | exact marks_setQuality hpublish _ _
    | exact marks_setThrough hpublish _ _ _
    | exact marks_setAfter hpublish _ _ _ _ _
    | exact marks_refuse _ _
    | skip
  all_goals
    simp only [World.setRotation, World.setTimelapseTrigger, World.setTimelapseGpioPin, World.setTimelapseGpioRecordPin,
      World.setTimezone, World.setRtspMode, World.setWebrtcMode]
    repeat' split
  all_goals first
    | exact marks_refuse _ _
    | exact marks_commit hpublish _ _
    | exact marks_setAndArm hpublish _ _ _
    | exact marks_setAfter hpublish _ _ _ _ _

end Marks

section Runs

variable {zones : List String}

theorem run_camera {env : Env} {w : World} {m : Mutation} (hpublish : env.publish = .returns ())
    (htorn : ¬TornQuality env w m) :
    (m.run zones env w).2.camera = w.camera ∨ (m.run zones env w).2.camera.infoDirty = true := by
  have hmarks : Marks (m.run zones env w) := marks_run hpublish m
  cases hasked : m.asked with
  | none =>
    obtain ⟨w', reason, hquiet, heq⟩ | ⟨c, -, hcommitted⟩ := settled_run zones env w hasked
    · rw [heq]
      exact Or.inl hquiet.camera
    · exact Or.inr (hmarks hcommitted.ok)
  | some asked =>
    obtain ⟨raw, persist⟩ := asked
    rw [run_of_asked hasked] at hmarks ⊢
    cases hlive : w.liveTier env raw with
    | none =>
      obtain ⟨w', reason, hquiet, heq⟩ := setQuality_refused persist hlive
      rw [heq]
      exact Or.inl hquiet.camera
    | some tier =>
      obtain ⟨w', hmade, heq⟩ := setQuality_live persist hlive
      rw [tornQuality_iff hasked hlive] at htorn
      rw [heq] at hmarks ⊢
      cases persist with
      | false => exact Or.inr (hmarks rfl)
      | true =>
        cases hpersists : env.persists with
        | true =>
          rw [hpersists] at hmarks
          exact Or.inr (hmarks rfl)
        | false =>
          have htier : tier = w.camera.quality := by
            by_contra hne
            exact htorn ⟨rfl, hpersists, hne⟩
          left
          change w'.camera = w.camera
          rw [hmade.camera, htier]

/-- What is waited for was built from the state as it is, and it is still to be marked as done. -/
structure Inv (s : State) : Prop where
  current : s.Current
  flight : ∀ body, s.flight = some body → s.dirty = true ∧ body = infoFields s.world.camera

theorem inv_step (s : State) (e : Event) (t : State) (h : Inv s) (hcalm : Calm s e) (hstep : step zones s e = some t) :
    Inv t := by
  cases e with
  | change env m =>
    obtain ⟨hflight, htorn⟩ := hcalm
    obtain rfl := Option.some.inj hstep
    have hnone : ∀ body, s.flight ≠ some body := fun body hbody => by simp [hflight] at hbody
    refine ⟨fun hdirty _ body hbody => ?_, fun body hbody => absurd hbody (hnone body)⟩
    obtain hsame | hmarked := @run_camera zones _ _ _ rfl htorn
    · have hold : s.dirty = false := by
        rw [State.dirty, ← hsame]
        exact hdirty
      rw [h.current hold hflight body hbody]
      exact congrArg infoFields hsame.symm
    · exact absurd (hmarked.symm.trans hdirty) (by decide)
  | wake =>
    simp only [step] at hstep
    split at hstep
    · exact absurd hstep (by simp)
    split at hstep
    · rename_i hattempt
      obtain rfl := Option.some.inj hstep
      have hdirty : s.dirty = true := by
        by_contra hclean
        rw [nextInfoAction, if_neg hclean] at hattempt
        exact Bool.noConfusion hattempt
      exact ⟨fun _ hnone => by simp at hnone, fun body hbody => ⟨hdirty, (Option.some.inj hbody).symm⟩⟩
    · obtain rfl := Option.some.inj hstep
      exact ⟨h.current, h.flight⟩
  | answered r =>
    simp only [step] at hstep
    split at hstep
    · exact absurd hstep (by simp)
    · next body hbody =>
      split_ifs at hstep with hr
      · obtain rfl := Option.some.inj hstep
        refine ⟨fun _ _ b hb => ?_, fun b hb => by simp at hb⟩
        rw [← Option.some.inj hb]
        exact (h.flight body hbody).2
      · obtain rfl := Option.some.inj hstep
        have hretry := hcalm.resolve_left hr
        refine ⟨fun hdirty => ?_, fun b hb => by simp at hb⟩
        have hkept : infoDirtyAfterResult r s.failures = true := by rw [infoDirtyAfterResult, if_neg hr, hretry]
        exact absurd (hkept.symm.trans hdirty) (by decide)

/-- From any state in which the last upload is current and none is waited for. -/
theorem uploaded_current {start s : State} {events : List Event} (hstart : start.Current) (hidle : start.flight = none)
    (hcalm : StepRuns.AllMeet (step zones) Calm start events) (hrun : StepRuns.run (step zones) start events = some s) :
    s.Current := by
  have hinv : Inv start := ⟨hstart, fun body hbody => by simp [hidle] at hbody⟩
  exact (StepRuns.inv_of_run inv_step hinv hcalm hrun).current

end Runs

section Samples

def booted : State := { world := { camera := {} } }

def rename : Event := .change workingEnv (.cameraName (.str "Shed"))

/-- The name is changed while an upload is waited for: the answer clears the flag that this has set. -/
theorem rename_during_upload_lost : booted.Current ∧ booted.flight = none ∧ ∃ s,
    StepRuns.run (step []) booted [.wake, rename, .answered .success] = some s ∧ ¬s.Current := by
  refine ⟨fun hdirty => Bool.noConfusion hdirty, rfl, _, rfl, fun h => ?_⟩
  have hname : "PiBuddyCam" = (infoFields _).1 := congrArg Prod.fst (h rfl rfl _ rfl)
  exact absurd hname (by decide +kernel)

theorem rename_before_upload_current : ∃ s,
    StepRuns.run (step []) booted [rename, .wake, .answered .success] = some s ∧ s.Current := by
  have hrun : StepRuns.run (step []) booted [rename, .wake, .answered .success] = some _ := rfl
  refine ⟨_, hrun, uploaded_current (fun hdirty => Bool.noConfusion hdirty) rfl ?_ hrun⟩
  refine ⟨⟨rfl, ?_⟩, fun s hs => ⟨trivial, fun t ht => ⟨Or.inl rfl, fun _ _ => trivial⟩⟩⟩
  rintro ⟨raw, tier, hasked, -⟩
  exact absurd hasked (by simp [Mutation.asked])

end Samples

end PiBuddyCam.Info
