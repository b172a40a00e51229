import PiBuddyCam.SettingsSteps

/-! The WebRTC switch across a restart: which offers are let in before it and after it. -/
namespace PiBuddyCam.Settings

/-- What the start-up of `main` finds outside of `state.json`: the quality, rotation and RTSP mode files,
and the snapshot interval of the configuration where that is valid. -/
structure Seeds where
  quality : Value
  rotation : Value
  interval : Option Value
  rtspMode : Value

section StartUp

variable (zones : List String)

def Seeds.camera (seeds : Seeds) : CameraState :=
  let s := (({} : CameraState).setQuality seeds.quality).2
  let s := (s.setRotation seeds.rotation).2
  match seeds.interval with
  | none => s
  | some seconds => (s.setSnapshotInterval seconds).2

/-- The start-up steps of `main`: the seeds, the RTSP mode, the restore unless there is nothing to
restore, and the WebRTC service. -/
def startUp (env : Env) (seeds : Seeds) (persisted : Document) : World :=
  let w := (World.applyRtspMode env { camera := seeds.camera } false seeds.rtspMode).2
  let w := if persisted.entries = [] then w else (w.restore zones env (some persisted)).2
  w.called .webrtcStart

def World.changeModes (w : World) (changes : List (Env × Value)) : World :=
  changes.foldl (fun w change => (w.setWebrtcMode change.1 change.2).2) w

/-- The switch that the user moves: it is on at first, and a request with one of the two modes moves it
unless the service call that this needs raises. -/
def moveSwitch (on : Bool) (change : Env × Value) : Bool :=
  match intIn [0, 1] change.2 with
  | none => on
  | some n => if n = 0 then on && raised change.1.webrtcStop else on || !raised change.1.webrtcStart

def leftOn (changes : List (Env × Value)) : Bool := changes.foldl moveSwitch true

def World.reloaded (json : JsonRoundTrip) (stored : Document) (w : World) : Document :=
  (w.documents.getLast?.map json.read).getD stored

end StartUp

section Status

variable {zones : List String} {env : Env} {w : World}

theorem setRotation_status (s : CameraState) (v : Value) : (s.setRotation v).2.webrtcStatus = s.webrtcStatus := by
  apply assign_field CameraState.webrtcStatus
  intro n
  split_ifs <;> rfl

theorem persistedSetters_status {entry : String × (CameraState → Value → Bool × CameraState)}
    (hentry : entry ∈ CameraState.persistedSetters zones) (s : CameraState) (v : Value) :
    (entry.2 s v).2.webrtcStatus = s.webrtcStatus := by
  have hassign {α : Type} {check : Option α} {set : α → CameraState} (hset : ∀ a, (set a).webrtcStatus = s.webrtcStatus) :
      (assign s check set).2.webrtcStatus = s.webrtcStatus := assign_field CameraState.webrtcStatus hset
  simp only [CameraState.persistedSetters, List.mem_cons, List.not_mem_nil, or_false] at hentry
  rcases hentry with rfl | rfl | rfl | rfl | rfl | rfl | rfl | rfl | rfl | rfl | rfl | rfl | rfl | rfl
  all_goals try exact hassign fun _ => rfl
  · exact setRotation_status s v
  · cases v with
    | str name => exact hassign fun _ => rfl
    | _ => rfl
  · dsimp only [CameraState.setTimelapseGpioPin]
    split_ifs
    · rfl
    · rfl
    · exact hassign fun _ => rfl
  · dsimp only [CameraState.setTimelapseGpioRecordPin]
    split_ifs
    · rfl
    · exact hassign fun _ => rfl
  · cases v with
    | str name => exact hassign fun _ => rfl
    | _ => rfl

theorem applyPersisted_status (s : CameraState) (data : Option Document) :
    (s.applyPersisted zones data).1.webrtcStatus = s.webrtcStatus := by
  apply applyPersisted_keeps (P := fun t => t.webrtcStatus = s.webrtcStatus) _ rfl data
  intro entry hentry t v ht
  exact (persistedSetters_status hentry t v).trans ht

theorem seeds_status (seeds : Seeds) : seeds.camera.webrtcStatus = 1 := by
  have hquality : (({} : CameraState).setQuality seeds.quality).2.webrtcStatus = 1 :=
    assign_field CameraState.webrtcStatus fun _ => rfl
  have hrotation : ((({} : CameraState).setQuality seeds.quality).2.setRotation seeds.rotation).2.webrtcStatus = 1 :=
    (setRotation_status _ _).trans hquality
  rw [Seeds.camera]
  cases seeds.interval with
  | none => exact hrotation
  | some seconds =>
    have hinterval : ∀ s : CameraState, (s.setSnapshotInterval seconds).2.webrtcStatus = s.webrtcStatus :=
      fun s => assign_field CameraState.webrtcStatus fun _ => rfl
    exact (hinterval _).trans hrotation

theorem applyRtspMode_status (env : Env) (w : World) (persist : Bool) (v : Value) :
    (w.applyRtspMode env persist v).2.camera.webrtcStatus = w.camera.webrtcStatus := by
  rw [World.applyRtspMode]
  cases intIn [1, 2] v with
  | none => rfl
  | some n => rfl

variable (zones : List String)

theorem restore_status (env : Env) (w : World) (persisted : Option Document) :
    (w.restore zones env persisted).2.camera.webrtcStatus = w.camera.webrtcStatus := by
  let restored : World := { w with camera := (w.camera.applyPersisted zones persisted).1 }
  have hpublish : (restored.publishState env).camera.webrtcStatus = restored.camera.webrtcStatus := by
    obtain hcamera | hcamera := publishState_camera env restored
    · rw [hcamera]
    · rw [hcamera]
      rfl
  calc (w.restore zones env persisted).2.camera.webrtcStatus
    _ = (restored.publishState env).camera.webrtcStatus := congrArg _ (applyGpio_quiet _).camera
    _ = restored.camera.webrtcStatus := hpublish
    _ = w.camera.webrtcStatus := applyPersisted_status w.camera persisted

theorem startUp_status (env : Env) (seeds : Seeds) (persisted : Document) :
    (startUp zones env seeds persisted).camera.webrtcStatus = 1 := by
  have hrtsp := (applyRtspMode_status env { camera := seeds.camera } false seeds.rtspMode).trans (seeds_status seeds)
  change (if persisted.entries = [] then _ else _ : World).camera.webrtcStatus = 1
  split_ifs
  · exact hrtsp
  · exact (restore_status zones env _ _).trans hrtsp

theorem startUp_allows (env : Env) (seeds : Seeds) (persisted : Document) :
    offerAllowed (startUp zones env seeds persisted).camera = true := by
  rw [offerAllowed, startUp_status]
  simp

structure Follows (s : CameraState) (on : Bool) : Prop where
  status : s.webrtcStatus = 0 ↔ on = false
  mode : on = false → s.webrtcMode = 0

variable {on : Bool}

theorem Follows.allowed {s : CameraState} (h : Follows s on) : offerAllowed s = on := by
  cases on with
  | false =>
    rw [offerAllowed, h.mode rfl, h.status.mpr rfl]
    decide
  | true =>
    have hstatus : s.webrtcStatus ≠ 0 := fun hzero => absurd (h.status.mp hzero) (by decide)
    rw [offerAllowed, decide_eq_false hstatus, Bool.and_false, Bool.not_false]

theorem Follows.blocked_eq (h : Follows w.camera on) (env : Env) (n : ℤ) :
    w.blocked env n = if on then n = 0 && raised env.webrtcStop else n ≠ 0 && raised env.webrtcStart := by
  cases on with
  | false => rw [World.blocked, if_pos (h.status.mpr rfl), if_neg (by decide)]
  | true => rw [World.blocked, if_neg fun hzero => absurd (h.status.mp hzero) (by decide), if_pos rfl]

theorem Follows.moveSwitch_blocked (h : Follows w.camera on) {env : Env} {v : Value}
    (hblocked : ∀ n, intIn [0, 1] v = some n → w.blocked env n = true) : moveSwitch on (env, v) = on := by
  rw [moveSwitch]
  cases hn : intIn [0, 1] v with
  | none => rfl
  | some n =>
    have hraised := hblocked n hn
    rw [h.blocked_eq env n] at hraised
    cases on with
    | false =>
      obtain ⟨hne, hstart⟩ : n ≠ 0 ∧ raised env.webrtcStart = true := by simpa using hraised
      simp [hne, hstart]
    | true =>
      obtain ⟨hzero, hstop⟩ : n = 0 ∧ raised env.webrtcStop = true := by simpa using hraised
      simp [hzero, hstop]

theorem Follows.moveSwitch_moved (h : Follows w.camera on) {env : Env} {v : Value} {n : ℤ}
    (hn : intIn [0, 1] v = some n) (hblocked : w.blocked env n = false) : moveSwitch on (env, v) = decide (n ≠ 0) := by
  rw [h.blocked_eq env n] at hblocked
  rw [moveSwitch, hn]
  by_cases hzero : n = 0
  · cases on with
    | false => simp [hzero]
    | true =>
      have hstop : raised env.webrtcStop = false := by simpa [hzero] using hblocked
      simp [hzero, hstop]
  · cases on with
    | false =>
      have hstart : raised env.webrtcStart = false := by simpa [hzero] using hblocked
      simp [hzero, hstart]
    | true => simp [hzero]

theorem Follows.change (h : Follows w.camera on) (env : Env) (v : Value) :
    Follows (w.setWebrtcMode env v).2.camera (moveSwitch on (env, v)) := by
  obtain ⟨hblocked, w', reason, hquiet, hrun⟩ | ⟨n, status, hn, hblocked, hstatus, hcommitted⟩ := setWebrtcMode_cases env w v
  · rw [h.moveSwitch_blocked hblocked, hrun]
    change Follows w'.camera on
    rw [hquiet.camera]
    exact h
  · rw [h.moveSwitch_moved hn hblocked]
    have hfollows : Follows { w.camera with webrtcStatus := status, webrtcMode := n } (decide (n ≠ 0)) := by
      constructor
      · rw [decide_eq_false_iff_not, not_not]
        exact hstatus
      · exact fun hoff => not_not.mp (of_decide_eq_false hoff)
    obtain hcamera | hcamera := hcommitted.camera
    · rw [hcamera]
      exact ⟨hfollows.status, hfollows.mode⟩
    · rw [hcamera]
      exact ⟨hfollows.status, hfollows.mode⟩

theorem Follows.changes (h : Follows w.camera on) (changes : List (Env × Value)) :
    Follows (w.changeModes changes).camera (changes.foldl moveSwitch on) := by
  induction changes generalizing w on with
  | nil => exact h
  | cons change changes ih => exact ih (h.change change.1 change.2)

/-- An offer is let in after a restart as it was before it exactly when the switch was left on: that it was
switched off does not last. -/
theorem offer_allowed_across_restart_iff (zones : List String) (json : JsonRoundTrip) (stored : Document)
    (env env' : Env) (seeds seeds' : Seeds) (changes : List (Env × Value)) :
    let before := (startUp zones env seeds stored).changeModes changes
    let after := startUp zones env' seeds' (before.reloaded json stored)
    (offerAllowed after.camera = true ↔ offerAllowed before.camera = true) ↔ leftOn changes = true := by
  intro before after
  have hstart : Follows (startUp zones env seeds stored).camera true := by
    constructor
    · rw [startUp_status]
      decide
    · exact fun hoff => absurd hoff (by decide)
  have hbefore : offerAllowed before.camera = leftOn changes := (hstart.changes changes).allowed
  have hafter : offerAllowed after.camera = true := startUp_allows zones env' seeds' _
  rw [hbefore, hafter]
  exact ⟨fun h => h.mp rfl, fun h => ⟨fun _ => h, fun _ => rfl⟩⟩

def shipped : Seeds := ⟨.int 3, .int 0, none, .int 2⟩

/-- WebRTC is switched off, the document with mode 0 is written and restored, and offers are let in again. -/
theorem switched_off_comes_back :
    let before := (startUp [] workingEnv shipped OrderedDict.empty).changeModes [(workingEnv, .int 0)]
    let after := startUp [] workingEnv shipped (before.reloaded default OrderedDict.empty)
    offerAllowed before.camera = false ∧ after.camera.webrtcMode = 0 ∧ offerAllowed after.camera = true := by
  decide

/-- Switched off and on again. -/
theorem switched_on_stays_on :
    let before := (startUp [] workingEnv shipped OrderedDict.empty).changeModes [(workingEnv, .int 0), (workingEnv, .int 1)]
    let after := startUp [] workingEnv shipped (before.reloaded default OrderedDict.empty)
    (offerAllowed after.camera = true ↔ offerAllowed before.camera = true) :=
  (offer_allowed_across_restart_iff [] default OrderedDict.empty workingEnv workingEnv shipped shipped
    [(workingEnv, .int 0), (workingEnv, .int 1)]).mpr (by decide)

end Status

end PiBuddyCam.Settings
