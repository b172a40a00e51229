import PiBuddyCam.CameraState

/-! What the setters of the camera state and `apply_persisted` keep in every reachable state, and
that a saved state is restored as it was. -/
namespace PiBuddyCam.Settings

inductive Call where
  | rotation (v : Value)
  | quality (v : Value)
  | snapshotInterval (v : Value)
  | timelapseInterval (v : Value)
  | timelapseTrigger (v : Value)
  | timelapseGpioPin (v : Value)
  | timelapseGpioRecordPin (v : Value)
  | timezone (v : Value)
  | cameraName (v : Value)
  | applyPersisted (data : Option Document)

structure Stripped (name : String) : Prop where
  ne_empty : name ≠ ""
  head : ∀ c, name.toList.head? = some c → PyText.isSpace c = false
  last : ∀ c, name.toList.getLast? = some c → PyText.isSpace c = false

structure Valid (zones : List String) (s : CameraState) : Prop where
  trigger : s.timelapseTrigger = .gpio → s.timelapseGpioPin ≠ none
  shotPin : ∀ n, s.timelapseGpioPin = some n → n ∈ safePins
  recordPin : ∀ n, s.timelapseGpioRecordPin = some n → n ∈ safePins
  pinsDiffer : ∀ n, s.timelapseGpioPin = some n → s.timelapseGpioRecordPin ≠ some n
  snapshotInterval : 10 ≤ s.snapshotInterval ∧ s.snapshotInterval ≤ 600
  timelapseInterval : 1 ≤ s.timelapseInterval ∧ s.timelapseInterval ≤ 3600
  timelapseFps : 1 ≤ s.timelapseFps ∧ s.timelapseFps ≤ 30
  quality : s.quality ∈ tiers
  rotation : s.rotation ∈ rotations
  cameraName : Stripped s.cameraName
  timezone : s.timezone = "" ∨ validZoneName zones s.timezone = true
  rtspMode : s.rtspMode ∈ [1, 2]
  webrtcMode : s.webrtcMode ∈ [0, 1]

section Checks

theorem intIn_eq_some {allowed : List ℤ} {v : Value} {n : ℤ} (h : intIn allowed v = some n) : v = .int n ∧ n ∈ allowed := by
  cases v with
  | int m =>
    rw [intIn] at h
    split_ifs at h with hm
    obtain rfl := Option.some.inj h
    exact ⟨rfl, hm⟩
  | _ => cases h

theorem intBetween_eq_some {low high : ℤ} {v : Value} {n : ℤ} (h : intBetween low high v = some n) :
    v = .int n ∧ low ≤ n ∧ n ≤ high := by
  cases v with
  | int m =>
    rw [intBetween] at h
    split_ifs at h with hm
    obtain rfl := Option.some.inj h
    exact ⟨rfl, hm⟩
  | _ => cases h

variable {s : CameraState}

theorem assign_keeps {α : Type} {P : CameraState → Prop} {check : Option α} {set : α → CameraState}
    (hs : P s) (hset : ∀ a, check = some a → P (set a)) : P (assign s check set).2 := by
  cases check with
  | none => exact hs
  | some a => exact hset a rfl

theorem assign_field {α β : Type} (f : CameraState → β) {check : Option α} {set : α → CameraState}
    (hset : ∀ a, f (set a) = f s) : f (assign s check set).2 = f s := by
  cases check with
  | none => rfl
  | some a => exact hset a

theorem applyPersisted_keeps {zones : List String} {P : CameraState → Prop}
    (hset : ∀ entry ∈ CameraState.persistedSetters zones, ∀ s v, P s → P (entry.2 s v).2) (hs : P s)
    (data : Option Document) : P (s.applyPersisted zones data).1 := by
  cases data with
  | none => exact hs
  | some data =>
    have hfold (entries : List (String × (CameraState → Value → Bool × CameraState)))
        (hall : ∀ e ∈ entries, e ∈ CameraState.persistedSetters zones) :
        ∀ acc : CameraState × List String, P acc.1 → P (entries.foldl (CameraState.applyKey data) acc).1 := by
      induction entries with
      | nil => exact fun acc hacc => hacc
      | cons e entries ih =>
        intro acc hacc
        apply ih fun e' he' => hall e' (List.mem_cons_of_mem e he')
        rw [CameraState.applyKey]
        split_ifs
        · exact hset e (hall e List.mem_cons_self) acc.1 _ hacc
        · exact hacc
    exact hfold _ (fun e he => he) _ hs

end Checks

section Setters

variable {zones : List String} {s : CameraState}

theorem valid_initial : Valid zones {} := by
  constructor
  case trigger => exact fun h => absurd h (by decide)
  case shotPin => exact fun n h => absurd h (by simp)
  case recordPin => exact fun n h => absurd h (by simp)
  case pinsDiffer => exact fun n h => absurd h (by simp)
  case cameraName =>
    have hends : PyText.isSpace 'P' = false ∧ PyText.isSpace 'm' = false := by decide
    exact ⟨by decide, fun c hc => Option.some.inj hc ▸ hends.1, fun c hc => Option.some.inj hc ▸ hends.2⟩
  case timezone => exact Or.inl rfl
  all_goals decide

theorem valid_setRotation (h : Valid zones s) (v : Value) : Valid zones (s.setRotation v).2 := by
  apply assign_keeps h
  intro n hn
  split_ifs
  · exact { h with rotation := (intIn_eq_some hn).2 }
  · exact h

theorem valid_setQuality (h : Valid zones s) (v : Value) : Valid zones (s.setQuality v).2 :=
  assign_keeps h fun _ hn => { h with quality := (intIn_eq_some hn).2 }

theorem valid_setSnapshotInterval (h : Valid zones s) (v : Value) : Valid zones (s.setSnapshotInterval v).2 :=
  assign_keeps h fun _ hn => { h with snapshotInterval := (intBetween_eq_some hn).2 }

theorem valid_setTimelapseInterval (h : Valid zones s) (v : Value) : Valid zones (s.setTimelapseInterval v).2 :=
  assign_keeps h fun _ hn => { h with timelapseInterval := (intBetween_eq_some hn).2 }

theorem valid_setTimelapseTrigger (h : Valid zones s) (v : Value) : Valid zones (s.setTimelapseTrigger v).2 := by
  apply assign_keeps h
  intro t ht
  obtain ⟨-, hpin⟩ := Option.filter_eq_some_iff.mp ht
  refine { h with trigger := fun hgpio hnone => ?_ }
  obtain rfl : t = .gpio := hgpio
  have hisNone : s.timelapseGpioPin = none := hnone
  rw [hisNone] at hpin
  exact absurd hpin (by decide)

theorem valid_setTimelapseGpioPin (h : Valid zones s) (v : Value) : Valid zones (s.setTimelapseGpioPin v).2 := by
  rw [CameraState.setTimelapseGpioPin]
  split_ifs with hnone hgpio
  · exact h
  · -- the pin is cleared, and the trigger does not need it
    exact { h with
      trigger := fun ht => absurd ht hgpio
      shotPin := fun n hn => absurd hn (by simp)
      pinsDiffer := fun n hn => absurd hn (by simp) }
  · apply assign_keeps h
    intro n hn
    obtain ⟨hcheck, hrecord⟩ := Option.filter_eq_some_iff.mp hn
    have hne := of_decide_eq_true hrecord
    exact { h with
      trigger := fun _ hnil => absurd hnil (by simp)
      shotPin := fun m hm => Option.some.inj hm ▸ (intIn_eq_some hcheck).2
      pinsDiffer := fun m hm heq => hne (hm.trans heq.symm) }

theorem valid_setTimelapseGpioRecordPin (h : Valid zones s) (v : Value) :
    Valid zones (s.setTimelapseGpioRecordPin v).2 := by
  rw [CameraState.setTimelapseGpioRecordPin]
  split_ifs with hnone
  · exact { h with
      recordPin := fun n hn => absurd hn (by simp)
      pinsDiffer := fun n _ hn => absurd hn (by simp) }
  · apply assign_keeps h
    intro n hn
    obtain ⟨hcheck, hshot⟩ := Option.filter_eq_some_iff.mp hn
    have hne := of_decide_eq_true hshot
    exact { h with
      recordPin := fun m hm => Option.some.inj hm ▸ (intIn_eq_some hcheck).2
      pinsDiffer := fun m hm heq => hne (heq.trans hm.symm) }

theorem valid_setTimezone (h : Valid zones s) (v : Value) : Valid zones (s.setTimezone zones v).2 := by
  cases v with
  | str name =>
    apply assign_keeps h
    intro n hn
    obtain ⟨-, hzone⟩ := Option.filter_eq_some_iff.mp hn
    rw [Bool.or_eq_true, decide_eq_true_eq] at hzone
    exact { h with timezone := hzone }
  | _ => exact h

theorem stripped_strip {name : String} (h : PyText.strip name ≠ "") : Stripped (PyText.strip name) :=
  ⟨h, fun _ hc => PyText.head?_strip hc, fun _ hc => PyText.getLast?_strip hc⟩

theorem valid_setCameraName (h : Valid zones s) (v : Value) : Valid zones (s.setCameraName v).2 := by
  cases v with
  | str name =>
    apply assign_keeps h
    intro n hn
    obtain ⟨hstrip, hne⟩ := Option.filter_eq_some_iff.mp hn
    obtain rfl := Option.some.inj hstrip
    exact { h with cameraName := stripped_strip (of_decide_eq_true hne) }
  | _ => exact h

theorem valid_persistedSetters {entry : String × (CameraState → Value → Bool × CameraState)}
    (hentry : entry ∈ CameraState.persistedSetters zones) (h : Valid zones s) (v : Value) : Valid zones (entry.2 s v).2 := by
  simp only [CameraState.persistedSetters, List.mem_cons, List.not_mem_nil, or_false] at hentry
  rcases hentry with rfl | rfl | rfl | rfl | rfl | rfl | rfl | rfl | rfl | rfl | rfl | rfl | rfl | rfl
  · exact valid_setQuality h v
  · exact valid_setRotation h v
  · exact valid_setCameraName h v
  · exact valid_setSnapshotInterval h v
  · exact assign_keeps h fun b _ => { h with }
  · exact valid_setTimelapseInterval h v
  · exact assign_keeps h fun b _ => { h with }
  · exact assign_keeps h fun n hn => { h with timelapseFps := (intBetween_eq_some hn).2 }
  · exact valid_setTimelapseGpioPin h v
  · exact valid_setTimelapseGpioRecordPin h v
  · exact valid_setTimelapseTrigger h v
  · exact valid_setTimezone h v
  · exact assign_keeps h fun n hn => { h with rtspMode := (intIn_eq_some hn).2 }
  · exact assign_keeps h fun n hn => { h with webrtcMode := (intIn_eq_some hn).2 }

theorem valid_applyPersisted (h : Valid zones s) (data : Option Document) :
    Valid zones (s.applyPersisted zones data).1 :=
  applyPersisted_keeps (P := Valid zones) (fun _ hentry _ v hs => valid_persistedSetters hentry hs v) h data

end Setters

section Runs

variable (zones : List String)

def Call.apply (s : CameraState) : Call → CameraState
  | .rotation v => (s.setRotation v).2
  | .quality v => (s.setQuality v).2
  | .snapshotInterval v => (s.setSnapshotInterval v).2
  | .timelapseInterval v => (s.setTimelapseInterval v).2
  | .timelapseTrigger v => (s.setTimelapseTrigger v).2
  | .timelapseGpioPin v => (s.setTimelapseGpioPin v).2
  | .timelapseGpioRecordPin v => (s.setTimelapseGpioRecordPin v).2
  | .timezone v => (s.setTimezone zones v).2
  | .cameraName v => (s.setCameraName v).2
  | .applyPersisted data => (s.applyPersisted zones data).1

def reached (calls : List Call) : CameraState := calls.foldl (Call.apply zones) {}

theorem valid_apply {s : CameraState} (h : Valid zones s) (call : Call) : Valid zones (call.apply zones s) := by
  cases call with
  | rotation v => exact valid_setRotation h v
  | quality v => exact valid_setQuality h v
  | snapshotInterval v => exact valid_setSnapshotInterval h v
  | timelapseInterval v => exact valid_setTimelapseInterval h v
  | timelapseTrigger v => exact valid_setTimelapseTrigger h v
  | timelapseGpioPin v => exact valid_setTimelapseGpioPin h v
  | timelapseGpioRecordPin v => exact valid_setTimelapseGpioRecordPin h v
  | timezone v => exact valid_setTimezone h v
  | cameraName v => exact valid_setCameraName h v
  | applyPersisted data => exact valid_applyPersisted h data

theorem valid_foldl {s : CameraState} (h : Valid zones s) (calls : List Call) :
    Valid zones (calls.foldl (Call.apply zones) s) := by
  induction calls generalizing s with
  | nil => exact h
  | cons call calls ih => exact ih (valid_apply zones h call)

/-- In every state that setters and restores reach, with whatever values and data. -/
theorem reached_valid (calls : List Call) : Valid zones (reached zones calls) := valid_foldl zones valid_initial calls

end Runs

section RoundTrip

/-- What JSON can write and read back as it was. -/
def Value.IsJson : Value → Prop
  | .none | .bool _ | .int _ | .str _ => True
  | .float _ | .unhashable | .other => False

/-- A document written as JSON and read back: the keys may change places, and the store adds its own. -/
structure JsonRoundTrip where
  read : Document → Document
  keeps : ∀ d : Document, (∀ e ∈ d.entries, e.2.IsJson) → ∀ key v, d.get? key = some v → (read d).get? key = some v

instance : Inhabited JsonRoundTrip := ⟨⟨id, fun _ _ _ _ h => h⟩⟩

variable {zones : List String} {s : CameraState}

theorem isJson_persistable (s : CameraState) : ∀ e ∈ s.persistableState.entries, e.2.IsJson := by
  have hpin (pin : Option ℤ) : (pin.elim Value.none Value.int).IsJson := by
    cases pin with
    | none => trivial
    | some n => trivial
  intro e he
  simp only [CameraState.persistableState, CameraState.persistableEntries, List.mem_cons, List.not_mem_nil, or_false] at he
  rcases he with rfl | rfl | rfl | rfl | rfl | rfl | rfl | rfl | rfl | rfl | rfl | rfl | rfl | rfl
  all_goals first | exact hpin _ | trivial

variable {data : Document} {t : CameraState}
variable {set : CameraState → Value → Bool × CameraState} {acc : CameraState × List String}

theorem applyKey_set {key : String} {v : Value}
    (hv : data.get? key = some v) (hne : v ≠ .none)
    (hset : set acc.1 v = (true, t)) : CameraState.applyKey data acc (key, set) = (t, acc.2 ++ [key]) := by
  have hget : getOrNone data key = v := by rw [getOrNone, hv, Option.getD_some]
  rw [CameraState.applyKey]
  simp only [hget, hset, ne_eq, hne, not_false_eq_true, and_self, if_true]

theorem applyKey_null {key : String}
    (hv : data.get? key = some .none) :
    CameraState.applyKey data acc (key, set) = acc := by
  have hget : getOrNone data key = .none := by rw [getOrNone, hv, Option.getD_some]
  rw [CameraState.applyKey]
  rw [hget, if_neg fun h => h.1 rfl]

theorem assign_intIn {allowed : List ℤ} {n : ℤ} (hn : n ∈ allowed) (t : CameraState) (set : ℤ → CameraState) :
    assign t (intIn allowed (.int n)) set = (true, set n) := by
  rw [intIn, if_pos hn, assign]

theorem assign_intBetween {low high n : ℤ} (hn : low ≤ n ∧ n ≤ high) (t : CameraState) (set : ℤ → CameraState) :
    assign t (intBetween low high (.int n)) set = (true, set n) := by
  rw [intBetween, if_pos hn, assign]

theorem setRotation_int {n : ℤ} (hn : n ∈ rotations) (t : CameraState) :
    t.setRotation (.int n) = (true, { t with rotation := n, infoDirty := if n ≠ t.rotation then true else t.infoDirty }) := by
  rw [CameraState.setRotation, assign_intIn hn]
  split_ifs with heq
  · rfl
  · rw [not_not.mp heq]

theorem setCameraName_stripped {name : String} (h : Stripped name) (t : CameraState) :
    t.setCameraName (.str name) = (true, { t with cameraName := name }) := by
  have hstrip := PyText.strip_eq_self h.head h.last
  rw [CameraState.setCameraName, hstrip, Option.filter_some, if_pos (decide_eq_true h.ne_empty), assign]

theorem setTimezone_valid {name : String} (h : name = "" ∨ validZoneName zones name = true) (t : CameraState) :
    t.setTimezone zones (.str name) = (true, { t with timezone := name }) := by
  have hcheck : (decide (name = "") || validZoneName zones name) = true := by rwa [Bool.or_eq_true, decide_eq_true_eq]
  rw [CameraState.setTimezone, Option.filter_some, if_pos hcheck, assign]

theorem setTrigger_name {trigger : Trigger} (h : trigger = .gpio → t.timelapseGpioPin ≠ none) :
    t.setTimelapseTrigger (.str trigger.name) = (true, { t with timelapseTrigger := trigger }) := by
  cases trigger with
  | interval => rfl
  | gpio =>
    obtain ⟨n, hn⟩ := Option.ne_none_iff_exists'.mp (h rfl)
    have hcheck : (!(decide (Trigger.gpio = .gpio) && t.timelapseGpioPin.isNone)) = true := by rw [hn]; rfl
    change assign t (Option.filter _ (some Trigger.gpio)) _ = _
    rw [Option.filter_some, if_pos hcheck, assign]

theorem applyKey_shotPin {applied : List String}
    (hsaved : data.get? "timelapse_gpio_pin" = some (s.timelapseGpioPin.elim .none .int))
    (hsafe : ∀ n, s.timelapseGpioPin = some n → n ∈ safePins) (hpin : t.timelapseGpioPin = none)
    (hrecord : t.timelapseGpioRecordPin = none) :
    CameraState.applyKey data (t, applied) ("timelapse_gpio_pin", CameraState.setTimelapseGpioPin) =
      ({ t with timelapseGpioPin := s.timelapseGpioPin },
        applied ++ s.timelapseGpioPin.elim [] fun _ => ["timelapse_gpio_pin"]) := by
  cases hshot : s.timelapseGpioPin with
  | none =>
    rw [hshot, Option.elim_none] at hsaved
    rw [applyKey_null hsaved, Option.elim_none, List.append_nil, ← hpin]
  | some n =>
    rw [hshot, Option.elim_some] at hsaved
    have hne : some n ≠ t.timelapseGpioRecordPin := by rw [hrecord]; exact Option.some_ne_none n
    apply applyKey_set hsaved (by simp)
    rw [CameraState.setTimelapseGpioPin, if_neg (by simp), intIn, if_pos (hsafe n hshot), Option.filter_some,
      if_pos (decide_eq_true hne), assign]

theorem applyKey_recordPin {applied : List String}
    (hsaved : data.get? "timelapse_gpio_record_pin" = some (s.timelapseGpioRecordPin.elim .none .int))
    (hsafe : ∀ n, s.timelapseGpioRecordPin = some n → n ∈ safePins) (hpin : t.timelapseGpioRecordPin = none)
    (hshot : ∀ n, t.timelapseGpioPin = some n → s.timelapseGpioRecordPin ≠ some n) :
    CameraState.applyKey data (t, applied) ("timelapse_gpio_record_pin", CameraState.setTimelapseGpioRecordPin) =
      ({ t with timelapseGpioRecordPin := s.timelapseGpioRecordPin },
        applied ++ s.timelapseGpioRecordPin.elim [] fun _ => ["timelapse_gpio_record_pin"]) := by
  cases hrecord : s.timelapseGpioRecordPin with
  | none =>
    rw [hrecord, Option.elim_none] at hsaved
    rw [applyKey_null hsaved, Option.elim_none, List.append_nil, ← hpin]
  | some n =>
    rw [hrecord, Option.elim_some] at hsaved
    have hne : some n ≠ t.timelapseGpioPin := fun heq => hshot n heq.symm hrecord
    apply applyKey_set hsaved (by simp)
    rw [CameraState.setTimelapseGpioRecordPin, if_neg (by simp), intIn, if_pos (hsafe n hrecord), Option.filter_some,
      if_pos (decide_eq_true hne), assign]

/-- A restore of what was saved gives back the whole durable part; the rest is as in a new state. -/
theorem restored_eq (h : Valid zones s)
    (hdata : ∀ key v, s.persistableState.get? key = some v → data.get? key = some v) :
    ∃ dirty, ((({} : CameraState).applyPersisted zones (some data)).1) =
      { s with rtspRunning := false, webrtcStatus := 1, turnOnline := false, infoDirty := dirty } := by
  rw [CameraState.applyPersisted, CameraState.persistedSetters]
  simp only [List.foldl_cons, List.foldl_nil]
  rw [applyKey_set (hdata "quality_tier" _ rfl) (by simp) (assign_intIn h.quality _ _)]
  rw [applyKey_set (hdata "rotation" _ rfl) (by simp) (setRotation_int h.rotation _)]
  rw [applyKey_set (hdata "camera_name" _ rfl) (by simp) (setCameraName_stripped h.cameraName _)]
  rw [applyKey_set (hdata "snapshot_interval" _ rfl) (by simp) (assign_intBetween h.snapshotInterval _ _)]
  rw [applyKey_set (hdata "snapshot_upload_enabled" _ rfl) (by simp) rfl]
  rw [applyKey_set (hdata "timelapse_interval" _ rfl) (by simp) (assign_intBetween h.timelapseInterval _ _)]
  rw [applyKey_set (hdata "timelapse_enabled" _ rfl) (by simp) rfl]
  rw [applyKey_set (hdata "timelapse_fps" _ rfl) (by simp) (assign_intBetween h.timelapseFps _ _)]
  -- the trigger comes after both pins, so that `gpio` finds the shot pin it needs
  rw [applyKey_shotPin (hdata "timelapse_gpio_pin" _ rfl) h.shotPin]
  rw [applyKey_recordPin (hdata "timelapse_gpio_record_pin" _ rfl) h.recordPin]
  case hshot => exact h.pinsDiffer
  case hpin => rfl
  case hpin => rfl
  case hrecord => rfl
  rw [applyKey_set (hdata "timelapse_trigger" _ rfl) (by simp) (setTrigger_name h.trigger)]
  rw [applyKey_set (hdata "timezone" _ rfl) (by simp) (setTimezone_valid h.timezone _)]
  rw [applyKey_set (hdata "rtsp_mode" _ rfl) (by simp) (assign_intIn h.rtspMode _ _)]
  rw [applyKey_set (hdata "webrtc_mode" _ rfl) (by simp) (assign_intIn h.webrtcMode _ _)]
  exact ⟨_, rfl⟩

/-- A saved state is restored as it was, in every field and for every state that is reached. -/
theorem persistable_round_trip (zones : List String) (json : JsonRoundTrip) (calls : List Call) :
    (({} : CameraState).applyPersisted zones (some (json.read (reached zones calls).persistableState))).1.persistableState =
      (reached zones calls).persistableState := by
  have hvalid := valid_foldl zones valid_initial calls
  obtain ⟨dirty, hrestored⟩ := restored_eq hvalid (json.keeps _ (isJson_persistable _))
  rw [reached, hrestored]
  rfl

end RoundTrip

end PiBuddyCam.Settings
