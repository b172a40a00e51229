import PiBuddyCam.CameraInvariant
import PiBuddyCam.SettingsCoordinator

/-! What one mutation of the coordinator can do: refuse and leave the state and the store alone, or change
the state and offer it to the store. Only a quality change can do more. -/
namespace PiBuddyCam.Settings

/-- The camera state and the store are as before, and nothing was published. -/
structure Quiet (w w' : World) : Prop where
  camera : w'.camera = w.camera
  documents : w'.documents = w.documents
  published : w'.published = w.published

def Env.stored (env : Env) (c : CameraState) : List Document :=
  if env.available && env.save.wrote then [c.persistableState.set "version" (.int 1)] else []

/-- An accepted mutation: the state became `c` and was offered to the store. -/
structure Committed (env : Env) (w : World) (c : CameraState) (o : Outcome) : Prop where
  ok : o.1.ok = true
  camera : o.2.camera = c ∨ o.2.camera = c.markInfoDirty
  documents : o.2.documents = w.documents ++ env.stored c

def Refused (w : World) (o : Outcome) : Prop := ∃ w' reason, Quiet w w' ∧ o = w'.refuse reason

structure Keeps (zones : List String) (s c : CameraState) : Prop where
  quality : c.quality = s.quality
  valid : Valid zones s → Valid zones c

def Settled (zones : List String) (env : Env) (w : World) (o : Outcome) : Prop :=
  Refused w o ∨ ∃ c, Keeps zones w.camera c ∧ Committed env w c o

section Steps

variable {zones : List String} {env : Env} {w w' : World}

theorem Quiet.refl (w : World) : Quiet w w := ⟨rfl, rfl, rfl⟩

theorem Quiet.called (w : World) (call : ServiceCall) : Quiet w (w.called call) := ⟨rfl, rfl, rfl⟩

theorem Quiet.refused (h : Quiet w w') (reason : String) : Refused w (w'.refuse reason) := ⟨w', reason, h, rfl⟩

theorem settled_refuse (w : World) (reason : String) : Settled zones env w (w.refuse reason) :=
  Or.inl ((Quiet.refl w).refused reason)

theorem persistState_documents (w : World) :
    (w.persistState env).2.documents = w.documents ++ env.stored w.camera := by
  rw [World.persistState, Env.stored]
  cases env.available <;> cases env.save.wrote <;> simp

theorem persistState_camera (w : World) : (w.persistState env).2.camera = w.camera := by
  rw [World.persistState]
  split_ifs <;> rfl

theorem publishState_documents (w : World) : (w.publishState env).documents = w.documents := by
  rw [World.publishState]
  cases env.publish <;> rfl

theorem publishState_camera (env : Env) (w : World) :
    (w.publishState env).camera = w.camera ∨ (w.publishState env).camera = w.camera.markInfoDirty := by
  rw [World.publishState]
  cases env.publish with
  | raises => exact Or.inl rfl
  | returns _ => exact Or.inr rfl

theorem applyGpio_quiet (w : World) : Quiet w (w.applyGpio env) := by
  rw [World.applyGpio]
  cases env.gpioApply with
  | none => exact Quiet.refl w
  | some _ => exact Quiet.called w _

theorem committed_commit {c : CameraState} {changed : List String} (hc : w'.camera = c) (h : w'.documents = w.documents) :
    Committed env w c (w'.commit env changed) where
  ok := rfl
  camera := by
    have hcamera : (w'.persistState env).2.camera = c := (persistState_camera w').trans hc
    have hpublish := publishState_camera env (w'.persistState env).2
    rwa [hcamera] at hpublish
  documents := by
    calc ((w'.persistState env).2.publishState env).documents
      _ = (w'.persistState env).2.documents := publishState_documents _
      _ = w'.documents ++ env.stored w'.camera := persistState_documents w'
      _ = w.documents ++ env.stored c := by rw [h, hc]

theorem committed_commitAndArm {c : CameraState} {changed : List String} (hc : w'.camera = c)
    (h : w'.documents = w.documents) : Committed env w c (w'.commitAndArm env changed) := by
  have hcommit : Committed env w c (w'.commit env changed) := committed_commit hc h
  have hquiet : Quiet (w'.commit env changed).2 ((w'.commit env changed).2.applyGpio env) := applyGpio_quiet _
  exact ⟨rfl, hquiet.camera.symm ▸ hcommit.camera, hquiet.documents.trans hcommit.documents⟩

theorem settled_setThrough {set : Bool × CameraState} (h : Keeps zones w.camera set.2) (reason key : String) :
    Settled zones env w (w.setThrough env set reason key) := by
  rw [World.setThrough]
  split_ifs
  · exact Or.inr ⟨set.2, h, committed_commit rfl rfl⟩
  · exact settled_refuse w reason

theorem settled_setAndArm {set : Bool × CameraState} (h : Keeps zones w.camera set.2) (reason key : String) :
    Settled zones env w (w.setAndArm env set reason key) := by
  rw [World.setAndArm]
  split_ifs
  · exact Or.inr ⟨set.2, h, committed_commitAndArm rfl rfl⟩
  · exact settled_refuse w reason

theorem settled_setAfter {set : CameraState} (h : Keeps zones w.camera set) (hook : Option (Reply Bool))
    (call : ServiceCall) (reason key : String) : Settled zones env w (w.setAfter env hook call set reason key) := by
  cases hook with
  | none => exact settled_refuse w _
  | some reply =>
    rw [World.setAfter]
    split_ifs
    · exact Or.inr ⟨set, h, committed_commit rfl rfl⟩
    · exact Or.inl ((Quiet.called w call).refused reason)

variable (s : CameraState) (v : Value)

theorem keeps_setRotation : Keeps zones s (s.setRotation v).2 where
  quality := by
    apply assign_field CameraState.quality
    intro n
    split_ifs <;> rfl
  valid h := valid_setRotation h v

theorem keeps_setSnapshotInterval : Keeps zones s (s.setSnapshotInterval v).2 :=
  ⟨assign_field CameraState.quality fun _ => rfl, fun h => valid_setSnapshotInterval h v⟩

theorem keeps_setTimelapseInterval : Keeps zones s (s.setTimelapseInterval v).2 :=
  ⟨assign_field CameraState.quality fun _ => rfl, fun h => valid_setTimelapseInterval h v⟩

theorem keeps_setTimelapseTrigger : Keeps zones s (s.setTimelapseTrigger v).2 :=
  ⟨assign_field CameraState.quality fun _ => rfl, fun h => valid_setTimelapseTrigger h v⟩

theorem keeps_setTimelapseGpioPin : Keeps zones s (s.setTimelapseGpioPin v).2 where
  quality := by
    rw [CameraState.setTimelapseGpioPin]
    split_ifs
    · rfl
    · rfl
    · exact assign_field CameraState.quality fun _ => rfl
  valid h := valid_setTimelapseGpioPin h v

theorem keeps_setTimelapseGpioRecordPin :
    Keeps zones s (s.setTimelapseGpioRecordPin v).2 where
  quality := by
    rw [CameraState.setTimelapseGpioRecordPin]
    split_ifs
    · rfl
    · exact assign_field CameraState.quality fun _ => rfl
  valid h := valid_setTimelapseGpioRecordPin h v

theorem keeps_setTimezone : Keeps zones s (s.setTimezone zones v).2 where
  quality := by
    cases v with
    | str name => exact assign_field CameraState.quality fun _ => rfl
    | _ => rfl
  valid h := valid_setTimezone h v

theorem keeps_setCameraName : Keeps zones s (s.setCameraName v).2 where
  quality := by
    cases v with
    | str name => exact assign_field CameraState.quality fun _ => rfl
    | _ => rfl
  valid h := valid_setCameraName h v

theorem keeps_applyEnable : Keeps zones s (applyEnable s v).2 := by
  rw [applyEnable]
  split_ifs
  · exact ⟨rfl, fun h => { h with }⟩
  · exact ⟨rfl, fun h => { h with }⟩
  · exact ⟨rfl, fun h => h⟩

theorem settled_setRotation : Settled zones env w (w.setRotation env v) := by
  rw [World.setRotation]
  cases intIn rotations v with
  | none => exact settled_refuse w _
  | some n => exact settled_setAfter (keeps_setRotation w.camera v) _ _ _ _

theorem settled_setSnapshotUpload : Settled zones env w (w.setSnapshotUpload env v) := by
  apply settled_setThrough
  exact ⟨assign_field CameraState.quality fun _ => rfl, fun h => assign_keeps h fun _ _ => { h with }⟩

theorem settled_setTimelapseFps : Settled zones env w (w.setTimelapseFps env v) := by
  apply settled_setThrough
  exact ⟨assign_field CameraState.quality fun _ => rfl, fun h => assign_keeps h fun _ hn =>
    { h with timelapseFps := (intBetween_eq_some hn).2 }⟩

theorem settled_setTimelapseTrigger : Settled zones env w (w.setTimelapseTrigger env v) := by
  rw [World.setTimelapseTrigger]
  split_ifs
  · exact settled_refuse w _
  · exact settled_setAndArm (keeps_setTimelapseTrigger w.camera v) _ _

theorem settled_setTimelapseGpioPin : Settled zones env w (w.setTimelapseGpioPin env v) := by
  rw [World.setTimelapseGpioPin]
  split_ifs
  · exact settled_setAndArm (keeps_setTimelapseGpioPin w.camera v) _ _
  · exact settled_setAndArm (keeps_setTimelapseGpioPin w.camera v) _ _
  · exact settled_refuse w _

theorem settled_setTimelapseGpioRecordPin : Settled zones env w (w.setTimelapseGpioRecordPin env v) := by
  rw [World.setTimelapseGpioRecordPin]
  split_ifs
  · exact settled_setAndArm (keeps_setTimelapseGpioRecordPin w.camera v) _ _
  · exact settled_refuse w _

theorem settled_setTimezone : Settled zones env w (w.setTimezone zones env v) := by
  cases v with
  | str name =>
    rw [World.setTimezone]
    split_ifs
    · exact Or.inr ⟨_, keeps_setTimezone w.camera (.str ""), committed_commit rfl rfl⟩
    · exact settled_setAfter (keeps_setTimezone w.camera (.str name)) _ _ _ _
    · exact settled_refuse w _
  | _ => exact settled_refuse w _

theorem settled_setRtspMode : Settled zones env w (w.setRtspMode env v) := by
  rw [World.setRtspMode, World.applyRtspMode]
  cases hmode : intIn [1, 2] v with
  | none => exact settled_refuse w _
  | some n =>
    have hkeeps : Keeps zones w.camera (CameraState.markInfoDirty
        { w.camera with rtspMode := n, rtspRunning := runtimeAfterCommand n env.rtspQuery }) :=
      ⟨rfl, fun h => { h with rtspMode := (intIn_eq_some hmode).2 }⟩
    refine Or.inr ⟨_, hkeeps, committed_commit rfl ?_⟩
    dsimp only
    split_ifs <;> rfl

def raised : Option (Reply Unit) → Bool
  | some .raises => true
  | _ => false

def World.blocked (env : Env) (w : World) (n : ℤ) : Bool :=
  if w.camera.webrtcStatus = 0 then n ≠ 0 && raised env.webrtcStart else n = 0 && raised env.webrtcStop

theorem moveService_cases (w : World) (hook : Option (Reply Unit)) (call : ServiceCall) (status : ℤ) :
    (raised hook = true ∧ (w.moveService hook call status).1 = false ∧ Quiet w (w.moveService hook call status).2) ∨
      raised hook = false ∧ (w.moveService hook call status).1 = true ∧
        (w.moveService hook call status).2.documents = w.documents ∧
        (w.moveService hook call status).2.camera = { w.camera with webrtcStatus := status } := by
  cases hook with
  | none => exact Or.inr ⟨rfl, rfl, rfl, rfl⟩
  | some reply =>
    cases reply with
    | raises => exact Or.inl ⟨rfl, rfl, Quiet.called w call⟩
    | returns _ => exact Or.inr ⟨rfl, rfl, rfl, rfl⟩

theorem moveWebrtc_cases (env : Env) (w : World) (n : ℤ) :
    (w.blocked env n = true ∧ (w.moveWebrtc env n).1 = false ∧ Quiet w (w.moveWebrtc env n).2) ∨
      w.blocked env n = false ∧ (w.moveWebrtc env n).1 = true ∧ (w.moveWebrtc env n).2.documents = w.documents ∧
        ∃ status, (status = 0 ↔ n = 0) ∧ (w.moveWebrtc env n).2.camera = { w.camera with webrtcStatus := status } := by
  rw [World.moveWebrtc, World.blocked]
  split
  · rename_i hstatus
    by_cases hn : n = 0
    · -- the service is stopped already
      rw [if_neg fun h => h.2 hn, if_neg fun h => h.1 hstatus]
      refine Or.inr ⟨by simp [hn], rfl, rfl, 0, by simp [hn], ?_⟩
      rw [← hstatus]
    · rw [if_pos ⟨hstatus, hn⟩]
      obtain ⟨hraised, hfailed⟩ | ⟨hraised, hok, hdocuments, hcamera⟩ :=
        moveService_cases w env.webrtcStart .webrtcStart 1
      · exact Or.inl ⟨by simp [hn, hraised], hfailed⟩
      · exact Or.inr ⟨by simp [hraised], hok, hdocuments, 1, by simp [hn], hcamera⟩
  · rename_i hstatus
    by_cases hn : n = 0
    · rw [if_neg fun h => hstatus h.1, if_pos ⟨hstatus, hn⟩]
      obtain ⟨hraised, hfailed⟩ | ⟨hraised, hok, hdocuments, hcamera⟩ := moveService_cases w env.webrtcStop .webrtcStop 0
      · exact Or.inl ⟨by simp [hn, hraised], hfailed⟩
      · exact Or.inr ⟨by simp [hraised], hok, hdocuments, 0, by simp [hn], hcamera⟩
    · -- the service runs already
      rw [if_neg fun h => hstatus h.1, if_neg fun h => hn h.2]
      exact Or.inr ⟨by simp [hn], rfl, rfl, w.camera.webrtcStatus, by simp [hstatus, hn], rfl⟩

/-- A mode is refused when it is none or its service call raises; one that is accepted is in effect from
then on, the status with it. -/
theorem setWebrtcMode_cases (env : Env) (w : World) (v : Value) :
    ((∀ n, intIn [0, 1] v = some n → w.blocked env n = true) ∧ Refused w (w.setWebrtcMode env v)) ∨
      ∃ n status, intIn [0, 1] v = some n ∧ w.blocked env n = false ∧ (status = 0 ↔ n = 0) ∧
        Committed env w (CameraState.markInfoDirty { w.camera with webrtcStatus := status, webrtcMode := n })
          (w.setWebrtcMode env v) := by
  rw [World.setWebrtcMode, World.applyWebrtcMode]
  cases hmode : intIn [0, 1] v with
  | none => exact Or.inl ⟨fun n hn => absurd hn (by simp), (Quiet.refl w).refused _⟩
  | some n =>
    rw [if_neg (by simp)]
    dsimp only
    obtain ⟨hblocked, hfailed, hquiet⟩ | ⟨hblocked, hok, hdocuments, status, hstatus, hcamera⟩ := moveWebrtc_cases env w n
    · have hnot : ¬ (w.moveWebrtc env n).1 = true := by
        rw [hfailed]
        decide
      rw [if_neg hnot, if_neg hnot]
      refine Or.inl ⟨fun n' hn' => ?_, hquiet.refused _⟩
      rw [← Option.some.inj hn']
      exact hblocked
    · rw [if_pos hok]
      refine Or.inr ⟨n, status, rfl, hblocked, hstatus, committed_commit ?_ hdocuments⟩
      rw [hcamera]

theorem settled_setWebrtcMode : Settled zones env w (w.setWebrtcMode env v) := by
  obtain ⟨-, hrefused⟩ | ⟨n, status, hn, -, -, hcommitted⟩ := setWebrtcMode_cases env w v
  · exact Or.inl hrefused
  · have hkeeps : Keeps zones w.camera (CameraState.markInfoDirty { w.camera with webrtcStatus := status, webrtcMode := n }) :=
      ⟨rfl, fun h => { h with webrtcMode := (intIn_eq_some hn).2 }⟩
    exact Or.inr ⟨_, hkeeps, hcommitted⟩

end Steps

section Asked

/-- The raw value and the persistence flag of a quality change, by a setter or from the UI. -/
def Mutation.asked : Mutation → Option (Value × Bool)
  | .quality raw persist => some (raw, persist)
  | .ui field value =>
    if named mutationFields field = some .quality then
      (named qualityNames value).map fun tier => (.int (enumToRaw tier), true)
    else none
  | _ => none

variable {zones : List String} {env : Env} {w : World}

theorem run_of_asked {m : Mutation} {raw : Value} {persist : Bool} (h : m.asked = some (raw, persist)) :
    m.run zones env w = w.setQuality env raw persist := by
  cases m with
  | quality raw' persist' =>
    obtain ⟨rfl, rfl⟩ := Prod.mk.inj (Option.some.inj h)
    rfl
  | ui field value =>
    rw [Mutation.asked] at h
    split_ifs at h with hfield
    obtain ⟨tier, htier, heq⟩ := Option.map_eq_some_iff.mp h
    obtain ⟨rfl, rfl⟩ := Prod.mk.inj heq
    rw [Mutation.run, World.applyMutation, hfield]
    dsimp only
    rw [World.mutate, htier]
  | _ => cases h

theorem settled_mutate {field : Field} (h : field ≠ .quality) (value : Value) :
    Settled zones env w (w.mutate zones env field value) := by
  cases field with
  | quality => exact absurd rfl h
  | cameraName =>
    rw [World.mutate]
    split_ifs
    · exact settled_setThrough (keeps_setCameraName w.camera value) _ _
    · exact settled_refuse w _
  | rotation => exact settled_setRotation value
  | snapshotUploadEnabled => exact settled_setSnapshotUpload value
  | snapshotInterval => exact settled_setThrough (keeps_setSnapshotInterval w.camera value) _ _
  | timelapseEnabled =>
    rw [World.mutate]
    cases boolOnly value with
    | none => exact settled_refuse w _
    | some b => exact settled_setThrough (keeps_applyEnable w.camera _) _ _
  | timelapseInterval => exact settled_setThrough (keeps_setTimelapseInterval w.camera value) _ _
  | timelapseFps => exact settled_setTimelapseFps value
  | timelapseTrigger => exact settled_setTimelapseTrigger value
  | timelapseGpioPin => exact settled_setTimelapseGpioPin value
  | timelapseGpioRecordPin => exact settled_setTimelapseGpioRecordPin value
  | timezone => exact settled_setTimezone value
  | rtspMode =>
    rw [World.mutate]
    cases named rtspNames value with
    | none => exact settled_refuse w _
    | some mode => exact settled_setRtspMode _
  | webrtcMode =>
    rw [World.mutate]
    cases named webrtcNames value with
    | none => exact settled_refuse w _
    | some mode => exact settled_setWebrtcMode _

/-- What a mutation does that is no quality change, for every value and every behaviour of the environment. -/
theorem settled_run (zones : List String) (env : Env) (w : World) {m : Mutation} (h : m.asked = none) :
    Settled zones env w (m.run zones env w) := by
  cases m with
  | quality raw persist => cases h
  | rotation v => exact settled_setRotation v
  | snapshotUpload v => exact settled_setSnapshotUpload v
  | snapshotInterval v => exact settled_setThrough (keeps_setSnapshotInterval w.camera v) _ _
  | timelapseEnabled v => exact settled_setThrough (keeps_applyEnable w.camera v) _ _
  | timelapseInterval v => exact settled_setThrough (keeps_setTimelapseInterval w.camera v) _ _
  | timelapseFps v => exact settled_setTimelapseFps v
  | timelapseTrigger v => exact settled_setTimelapseTrigger v
  | timelapseGpioPin v => exact settled_setTimelapseGpioPin v
  | timelapseGpioRecordPin v => exact settled_setTimelapseGpioRecordPin v
  | timezone v => exact settled_setTimezone v
  | rtspMode v => exact settled_setRtspMode v
  | webrtcMode v => exact settled_setWebrtcMode v
  | cameraName v => exact settled_setThrough (keeps_setCameraName w.camera v) _ _
  | ui field value =>
    rw [Mutation.run, World.applyMutation]
    rw [Mutation.asked] at h
    cases hfield : named mutationFields field with
    | none => exact settled_refuse w _
    | some f =>
      by_cases hf : f = .quality
      · -- the UI's quality with a name it does not know
        rw [hfield, if_pos (congrArg some hf), Option.map_eq_none_iff] at h
        dsimp only
        rw [hf, World.mutate, h]
        exact settled_refuse w _
      · exact settled_mutate hf value

end Asked

section Quality

variable {zones : List String} {env : Env} {w : World}

def Env.restarts (env : Env) : Bool :=
  match env.readLive, env.writeLive, env.restart with
  | true, .done, .returns code => code = 0
  | _, _, _ => false

/-- The tier that a quality change puts into effect, if it gets that far. -/
def World.liveTier (env : Env) (w : World) (raw : Value) : Option ℤ :=
  match rawToEnum raw with
  | .raises | .returns none => none
  | .returns (some tier) =>
    if env.qualityApply ∧ qualityChangeAllowed w.camera.quality tier w.camera.turnOnline ∧ env.restarts then some tier else none

def Env.persists (env : Env) : Bool :=
  match env.qualityPersist with
  | some .done => true
  | _ => false

/-- The tier came into effect in `w'`, and nothing else of the state or the store changed. -/
structure MadeLive (w : World) (tier : ℤ) (w' : World) : Prop where
  camera : w'.camera = { w.camera with quality := tier }
  documents : w'.documents = w.documents
  published : w'.published = w.published

variable {tier : ℤ}

theorem MadeLive.quiet {w' w'' : World} (h : MadeLive w tier w') (hquiet : Quiet w' w'') : MadeLive w tier w'' :=
  ⟨hquiet.camera.trans h.camera, hquiet.documents.trans h.documents, hquiet.published.trans h.published⟩

variable {raw : Value}

theorem applyLiveQuality_cases (env : Env) (w : World) (hraw : rawToEnum raw = .returns (some tier)) :
    (w.applyLiveQuality env raw).1.succeeded = env.restarts ∧
      if env.restarts then MadeLive w tier (w.applyLiveQuality env raw).2 else Quiet w (w.applyLiveQuality env raw).2 := by
  rw [World.applyLiveQuality, hraw, Env.restarts]
  cases env.readLive with
  | false => exact ⟨rfl, Quiet.refl w⟩
  | true =>
    cases env.writeLive with
    | fails left => exact ⟨rfl, rfl, rfl, rfl⟩
    | done =>
      cases env.restart with
      | raises => exact ⟨rfl, rfl, rfl, rfl⟩
      | returns code =>
        by_cases hcode : code = 0
        · simp only [hcode, decide_true, if_true]
          exact ⟨rfl, rfl, rfl, rfl⟩
        · simp only [hcode, decide_false, if_true, if_false, Bool.false_eq_true]
          exact ⟨rfl, rfl, rfl, rfl⟩

theorem persistQuality_succeeded (w : World) (tier : ℤ) : (w.persistQuality env tier).1.succeeded = env.persists := by
  rw [World.persistQuality, Env.persists]
  cases env.qualityPersist with
  | none => rfl
  | some write => cases write <;> rfl

theorem persistQuality_quiet (w : World) (tier : ℤ) : Quiet w (w.persistQuality env tier).2 := by
  rw [World.persistQuality]
  cases env.qualityPersist with
  | none => exact Quiet.refl w
  | some write => cases write <;> exact ⟨rfl, rfl, rfl⟩

theorem liveTier_eq_some_iff :
    w.liveTier env raw = some tier ↔ rawToEnum raw = .returns (some tier) ∧ env.qualityApply = true ∧
      qualityChangeAllowed w.camera.quality tier w.camera.turnOnline = true ∧ env.restarts = true := by
  rw [World.liveTier]
  cases rawToEnum raw with
  | raises => simp
  | returns found =>
    cases found with
    | none => simp
    | some n =>
      simp only [Option.ite_none_right_eq_some, Option.some.injEq, Reply.returns.injEq]
      constructor
      · rintro ⟨h, rfl⟩
        exact ⟨rfl, h⟩
      · rintro ⟨rfl, h⟩
        exact ⟨h, rfl⟩

variable (persist : Bool)

theorem handleQuality_refused (hinjected : env.qualityApply = true)
    (h : w.liveTier env raw = none) :
    (w.handleQuality env raw persist).1.succeeded = false ∧ Quiet w (w.handleQuality env raw persist).2 := by
  rw [World.handleQuality]
  cases hraw : rawToEnum raw with
  | raises => exact ⟨rfl, Quiet.refl w⟩
  | returns found =>
    cases found with
    | none => exact ⟨rfl, Quiet.refl w⟩
    | some tier =>
      dsimp only
      by_cases hallowed : qualityChangeAllowed w.camera.quality tier w.camera.turnOnline = true
      · -- the lock lets it through, so it must be the live apply that fails
        have hfails : env.restarts = false := by
          rw [← Bool.not_eq_true]
          intro hrestarts
          have hlive := liveTier_eq_some_iff.mpr ⟨hraw, hinjected, hallowed, hrestarts⟩
          exact absurd (hlive.symm.trans h) (Option.some_ne_none tier)
        obtain ⟨hsucceeded, hquiet⟩ := applyLiveQuality_cases env w hraw
        rw [hfails] at hsucceeded hquiet
        rw [if_pos hallowed, if_neg (by rw [hsucceeded]; decide)]
        exact ⟨hsucceeded, hquiet⟩
      · rw [if_neg hallowed]
        exact ⟨rfl, Quiet.refl w⟩

theorem handleQuality_live (h : w.liveTier env raw = some tier) :
    (w.handleQuality env raw persist).1.succeeded = (!persist || env.persists) ∧
      MadeLive w tier (w.handleQuality env raw persist).2 := by
  obtain ⟨hraw, -, hallowed, hrestarts⟩ := liveTier_eq_some_iff.mp h
  obtain ⟨hsucceeded, hmade⟩ := applyLiveQuality_cases env w hraw
  rw [hrestarts] at hsucceeded hmade
  rw [World.handleQuality, hraw]
  dsimp only
  rw [if_pos hallowed, if_pos hsucceeded]
  cases persist with
  | false => exact ⟨rfl, hmade⟩
  | true => exact ⟨persistQuality_succeeded _ tier, MadeLive.quiet hmade (persistQuality_quiet _ tier)⟩

theorem setQuality_refused (h : w.liveTier env raw = none) :
    Refused w (w.setQuality env raw persist) := by
  rw [World.setQuality]
  by_cases hinjected : env.qualityApply = true
  · obtain ⟨hfailed, hquiet⟩ := handleQuality_refused persist hinjected h
    rw [if_pos hinjected]
    rw [if_neg (by rw [hfailed]; decide)]
    exact hquiet.refused _
  · rw [if_neg hinjected]
    exact (Quiet.refl w).refused _

/-- A quality change that came into effect is accepted, unless it was to be kept and could not be. -/
theorem setQuality_live (h : w.liveTier env raw = some tier) :
    ∃ w', MadeLive w tier w' ∧ w.setQuality env raw persist =
      if persist then if env.persists then w'.commit env ["quality_tier"] else w'.refuse (w'.qualityReason raw)
      else (w'.publishState env).result true none ["quality_tier"] := by
  obtain ⟨-, hinjected, -⟩ := liveTier_eq_some_iff.mp h
  obtain ⟨hok, hmade⟩ := handleQuality_live persist h
  refine ⟨_, hmade, ?_⟩
  rw [World.setQuality, if_pos hinjected]
  dsimp only
  rw [hok]
  cases persist with
  | false => rfl
  | true => rfl

end Quality

end PiBuddyCam.Settings
