import PiBuddyCam.SettingsSteps

/-! When a refused mutation leaves the settings, the store and the listeners as they were. -/
namespace PiBuddyCam.Settings

def TornQuality (env : Env) (w : World) (m : Mutation) : Prop :=
  ∃ raw tier, m.asked = some (raw, true) ∧ w.liveTier env raw = some tier ∧ env.persists = false ∧ tier ≠ w.camera.quality

/-- The durable part of the state is as before, nothing was written and nothing was published. -/
structure Untouched (w w' : World) : Prop where
  state : w'.camera.persistableState = w.camera.persistableState
  documents : w'.documents = w.documents
  published : w'.published = w.published

theorem Refused.untouched {w : World} {o : Outcome} (h : Refused w o) : Untouched w o.2 := by
  obtain ⟨w', reason, hquiet, rfl⟩ := h
  exact ⟨congrArg _ hquiet.camera, hquiet.documents, hquiet.published⟩

theorem MadeLive.untouched_iff {w w' : World} {tier : ℤ} (h : MadeLive w tier w') :
    Untouched w w' ↔ tier = w.camera.quality := by
  constructor
  · intro huntouched
    have hget : w'.camera.persistableState.get? "quality_tier" = w.camera.persistableState.get? "quality_tier" := by
      rw [huntouched.state]
    rw [h.camera] at hget
    exact Value.int.inj (Option.some.inj hget)
  · intro htier
    refine ⟨?_, h.documents, h.published⟩
    rw [h.camera, htier]

theorem tornQuality_iff {env : Env} {w : World} {m : Mutation} {raw : Value} {persist : Bool} {tier : ℤ}
    (hasked : m.asked = some (raw, persist)) (hlive : w.liveTier env raw = some tier) :
    TornQuality env w m ↔ persist = true ∧ env.persists = false ∧ tier ≠ w.camera.quality := by
  constructor
  · rintro ⟨raw', tier', hasked', hlive', hpersists, hne⟩
    obtain ⟨rfl, rfl⟩ := Prod.mk.inj (Option.some.inj (hasked.symm.trans hasked'))
    obtain rfl := Option.some.inj (hlive.symm.trans hlive')
    exact ⟨rfl, hpersists, hne⟩
  · rintro ⟨rfl, hpersists, hne⟩
    exact ⟨raw, tier, hasked, hlive, hpersists, hne⟩

/-- A refused mutation leaves the durable settings, the store and the listeners alone, and the only
exception is a quality change that was applied and then could not be kept. -/
theorem refused_untouched_iff (zones : List String) (env : Env) (w : World) (m : Mutation) :
    ((m.run zones env w).1.ok = false → Untouched w (m.run zones env w).2) ↔ ¬ TornQuality env w m := by
  cases hasked : m.asked with
  | none =>
    have hnot : ¬ TornQuality env w m := fun ⟨_, _, htorn, _⟩ => absurd (hasked.symm.trans htorn) (by simp)
    refine iff_of_true (fun hok => ?_) hnot
    obtain hrefused | ⟨c, -, hcommitted⟩ := settled_run zones env w hasked
    · exact hrefused.untouched
    · exact absurd (hcommitted.ok.symm.trans hok) (by decide)
  | some asked =>
    obtain ⟨raw, persist⟩ := asked
    rw [run_of_asked hasked]
    cases hlive : w.liveTier env raw with
    | none =>
      have hnot : ¬ TornQuality env w m := by
        rintro ⟨raw', tier, hasked', hlive', -⟩
        obtain ⟨rfl, -⟩ := Prod.mk.inj (Option.some.inj (hasked.symm.trans hasked'))
        exact absurd (hlive.symm.trans hlive') (by simp)
      exact iff_of_true (fun _ => (setQuality_refused persist hlive).untouched) hnot
    | some tier =>
      obtain ⟨w', hmade, hrun⟩ := setQuality_live persist hlive
      rw [hrun, tornQuality_iff hasked hlive]
      cases persist with
      | false => exact iff_of_true (fun hok => absurd (show true = false from hok) (by decide)) (by simp)
      | true =>
        cases hpersists : env.persists with
        | true => exact iff_of_true (fun hok => absurd (show true = false from hok) (by decide)) (by simp)
        | false =>
          -- the answer is a refusal, and the state is the old one only if the tier was not new
          have huntouched : Untouched w w' ↔ tier = w.camera.quality := hmade.untouched_iff
          simp only [Bool.false_eq_true, if_true, if_false, true_and, not_not, ne_eq]
          exact ⟨fun h => huntouched.mp (h rfl), fun h _ => huntouched.mpr h⟩

def readOnlyEnv : Env := { workingEnv with qualityPersist := some (.fails none) }

/-- `sd` on a new camera is refused, and its tier is 1 from then on. -/
theorem refused_sd_changes_tier :
    (Mutation.run [] readOnlyEnv { camera := {} } (.ui (.str "quality") (.str "sd"))).1.ok = false ∧
      (Mutation.run [] readOnlyEnv { camera := {} } (.ui (.str "quality") (.str "sd"))).1.reason = some "live apply failed" ∧
      ({} : CameraState).persistableState.get? "quality_tier" = some (.int 3) ∧
      (Mutation.run [] readOnlyEnv { camera := {} } (.ui (.str "quality") (.str "sd"))).2.camera.persistableState.get?
        "quality_tier" = some (.int 1) := by
  decide

/-- `fhd` is refused as well, but it is the tier that the camera has. -/
theorem refused_fhd_untouched :
    (Mutation.run [] readOnlyEnv { camera := {} } (.ui (.str "quality") (.str "fhd"))).1.ok = false ∧
      Untouched { camera := {} } (Mutation.run [] readOnlyEnv { camera := {} } (.ui (.str "quality") (.str "fhd"))).2 := by
  have hok : (Mutation.run [] readOnlyEnv { camera := {} } (.ui (.str "quality") (.str "fhd"))).1.ok = false := by decide
  have hwhole : ¬ TornQuality readOnlyEnv { camera := {} } (.ui (.str "quality") (.str "fhd")) := by
    rintro ⟨raw, tier, hasked, hlive, -, hne⟩
    obtain ⟨rfl, -⟩ : .int 7 = raw ∧ true = true := Prod.mk.inj (Option.some.inj hasked)
    obtain rfl : 3 = tier := Option.some.inj hlive
    exact hne rfl
  exact ⟨hok, (refused_untouched_iff [] readOnlyEnv { camera := {} } (.ui (.str "quality") (.str "fhd"))).mpr hwhole hok⟩

end PiBuddyCam.Settings
