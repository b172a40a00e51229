import PiBuddyCam.SettingsSteps

/-! The quality tier in the durable document, over whole runs of the coordinator: which quality change
it comes from, and which steps keep it the one that was chosen. -/
namespace PiBuddyCam.Settings

/-- A mutation, with what the environment does during it, or a TURN client that comes or goes. -/
inductive Event where
  | turn (online : Bool)
  | mutate (env : Env) (m : Mutation)

def Mutation.durableTier (m : Mutation) : Option ℤ :=
  match m.asked with
  | some (raw, true) =>
    match rawToEnum raw with
    | .returns tier => tier
    | .raises => none
  | _ => none

/-- A quality change that comes into effect is to be kept, can be kept, and is written, unless there is
no document yet; or it changes nothing. -/
def Event.keeps (w : World) : Event → Bool
  | .turn _ => true
  | .mutate env m =>
    match m.asked with
    | none => true
    | some (raw, persist) =>
      match w.liveTier env raw with
      | none => true
      | some tier =>
        tier = w.camera.quality ||
          (persist && env.persists && (w.documents.isEmpty || (env.available && env.save.wrote)))

/-- A run, with the tier of the last change that was accepted with persistence, or the restored one. -/
structure Ledger where
  world : World
  chosen : ℤ

namespace Ledger

variable (zones : List String)

/-- A restore of some data on a state with whatever seeds; no document is written by it. -/
def start (env : Env) (seed : World) (persisted : Option Document) : Ledger :=
  let w := ({ seed with documents := [] }.restore zones env persisted).2
  ⟨w, w.camera.quality⟩

def step (l : Ledger) : Event → Ledger
  | .turn online => ⟨{ l.world with camera := { l.world.camera with turnOnline := online } }, l.chosen⟩
  | .mutate env m =>
    let o := m.run zones env l.world
    ⟨o.2, if o.1.ok then m.durableTier.getD l.chosen else l.chosen⟩

def run (l : Ledger) (events : List Event) : Ledger := events.foldl (step zones) l

def allKeep (l : Ledger) : List Event → Bool
  | [] => true
  | e :: events => e.keeps l.world && (l.step zones e).allKeep events

def HoldsChosen (l : Ledger) : Prop :=
  ∀ d, l.world.documents.getLast? = some d → d.get? "quality_tier" = some (.int l.chosen)

structure Agrees (l : Ledger) : Prop where
  quality : l.world.camera.quality = l.chosen
  document : l.HoldsChosen

end Ledger

section Steps

variable {zones : List String} {env : Env} {w w' : World} {c : CameraState}

theorem stored_tier {d : Document} (hd : d ∈ env.stored c) : d.get? "quality_tier" = some (.int c.quality) := by
  rw [Env.stored] at hd
  split_ifs at hd
  · rw [List.mem_singleton.mp hd, OrderedDict.get?_set_of_ne _ _ (by decide)]
    rfl
  · cases hd

theorem Committed.quality {o : Outcome} (h : Committed env w c o) : o.2.camera.quality = c.quality := by
  obtain hcamera | hcamera := h.camera
  · rw [hcamera]
  · rw [hcamera]
    rfl

theorem Committed.getLast? {o : Outcome} {d : Document} (h : Committed env w c o)
    (hd : o.2.documents.getLast? = some d) :
    d.get? "quality_tier" = some (.int c.quality) ∨ env.stored c = [] ∧ w.documents.getLast? = some d := by
  rw [h.documents, List.getLast?_append] at hd
  cases hstored : (env.stored c).getLast? with
  | none =>
    rw [hstored, Option.none_or] at hd
    exact Or.inr ⟨List.getLast?_eq_none_iff.mp hstored, hd⟩
  | some d' =>
    rw [hstored, Option.some_or] at hd
    obtain rfl := Option.some.inj hd
    exact Or.inl (stored_tier (List.mem_of_getLast? hstored))

theorem durableTier_of_live {m : Mutation} {raw : Value} {tier : ℤ} (hasked : m.asked = some (raw, true))
    (hlive : w.liveTier env raw = some tier) : m.durableTier = some tier := by
  rw [Mutation.durableTier, hasked]
  dsimp only
  rw [(liveTier_eq_some_iff.mp hlive).1]

theorem durableTier_of_not_asked {m : Mutation} (hasked : m.asked = none) : m.durableTier = none := by
  rw [Mutation.durableTier, hasked]

namespace Ledger

variable {l : Ledger}

theorem Agrees.of_refused (h : Agrees l) {o : Outcome} {n : ℤ} (hrefused : Refused l.world o) :
    Agrees ⟨o.2, if o.1.ok then n else l.chosen⟩ := by
  obtain ⟨w', reason, hquiet, rfl⟩ := hrefused
  refine ⟨(congrArg CameraState.quality hquiet.camera).trans h.quality, fun d hd => h.document d ?_⟩
  rw [← hquiet.documents]
  exact hd

theorem agrees_of_committed {c : CameraState} {o : Outcome} {n : ℤ} (h : Committed env l.world c o)
    (hquality : c.quality = n) (hold : env.stored c = [] → (⟨l.world, n⟩ : Ledger).HoldsChosen) : Agrees ⟨o.2, n⟩ := by
  refine ⟨h.quality.trans hquality, fun d hd => ?_⟩
  obtain hnew | ⟨hstored, hlast⟩ := h.getLast? hd
  · rw [hnew, hquality]
  · exact hold hstored d hlast

theorem Agrees.of_live_iff (h : Agrees l) {tier : ℤ} (hquality : w.camera.quality = tier)
    (hdocuments : w.documents = l.world.documents) : Agrees ⟨w, l.chosen⟩ ↔ tier = l.world.camera.quality := by
  rw [h.quality]
  constructor
  · exact fun hagrees => hquality.symm.trans hagrees.quality
  · intro htier
    refine ⟨hquality.trans htier, fun d hd => h.document d ?_⟩
    rw [← hdocuments]
    exact hd

theorem Agrees.of_kept_iff (h : Agrees l) {tier : ℤ} {o : Outcome} {c : CameraState}
    (hquality : c.quality = tier) (hcommitted : Committed env l.world c o) :
    Agrees ⟨o.2, tier⟩ ↔
      tier = l.world.camera.quality ∨ l.world.documents = [] ∨ (env.available && env.save.wrote) = true := by
  have hold (htier : tier = l.world.camera.quality) : (⟨l.world, tier⟩ : Ledger).HoldsChosen := by
    rw [htier, h.quality]
    exact h.document
  constructor
  · intro hagrees
    by_contra hnone
    obtain ⟨htier, hdocuments, hwrote⟩ := not_or.mp hnone |>.imp_right not_or.mp
    have hstored : env.stored c = [] := by rw [Env.stored, if_neg hwrote]
    -- the last document is still the one from before, which has the old choice
    obtain ⟨d, hlast⟩ := Option.ne_none_iff_exists'.mp (mt List.getLast?_eq_none_iff.mp hdocuments)
    have hnew : d.get? "quality_tier" = some (.int tier) := by
      apply hagrees.document d
      rw [hcommitted.documents, hstored, List.append_nil]
      exact hlast
    have hsame : some (Value.int tier) = some (.int l.chosen) := hnew.symm.trans (h.document d hlast)
    exact htier ((Value.int.inj (Option.some.inj hsame)).trans h.quality.symm)
  · rintro (htier | hdocuments | hwrote)
    · exact agrees_of_committed hcommitted hquality fun _ => hold htier
    · refine agrees_of_committed hcommitted hquality fun _ d hd => ?_
      rw [hdocuments] at hd
      cases hd
    · refine agrees_of_committed hcommitted hquality fun hstored => ?_
      rw [Env.stored, if_pos hwrote] at hstored
      cases hstored

theorem Agrees.step_iff (h : Agrees l) (e : Event) : Agrees (l.step zones e) ↔ e.keeps l.world = true := by
  cases e with
  | turn online => exact iff_of_true ⟨h.quality, h.document⟩ rfl
  | mutate env m =>
    rw [Event.keeps]
    cases hasked : m.asked with
    | none =>
      refine iff_of_true ?_ rfl
      obtain hrefused | ⟨c, hkeeps, hcommitted⟩ := settled_run zones env l.world hasked
      · exact h.of_refused hrefused
      · have hchosen : l.step zones (.mutate env m) = ⟨(m.run zones env l.world).2, l.chosen⟩ := by
          rw [Ledger.step, durableTier_of_not_asked hasked, Option.getD_none, ite_self]
        rw [hchosen]
        exact agrees_of_committed hcommitted (hkeeps.quality.trans h.quality) fun _ => h.document
    | some asked =>
      obtain ⟨raw, persist⟩ := asked
      dsimp only
      rw [Ledger.step, run_of_asked hasked]
      cases hlive : l.world.liveTier env raw with
      | none => exact iff_of_true (h.of_refused (setQuality_refused persist hlive)) rfl
      | some tier =>
        obtain ⟨w', hmade, hrun⟩ := setQuality_live persist hlive
        have hquality : w'.camera.quality = tier := by rw [hmade.camera]
        rw [hrun]
        cases persist with
        | false =>
          -- a live-only change is accepted and chooses nothing
          have hpublished : (w'.publishState env).camera.quality = tier := by
            obtain hcamera | hcamera := publishState_camera env w'
            · rw [hcamera, hquality]
            · rw [hcamera]
              exact hquality
          have hnone : m.durableTier = none := by rw [Mutation.durableTier, hasked]
          rw [hnone]
          simp only [Option.getD_none, ite_self, Bool.false_and, Bool.or_false, decide_eq_true_eq]
          exact h.of_live_iff hpublished ((publishState_documents w').trans hmade.documents)
        | true =>
          cases hpersists : env.persists with
          | false =>
            simp only [Bool.false_and, Bool.and_false, Bool.or_false, decide_eq_true_eq]
            exact h.of_live_iff hquality hmade.documents
          | true =>
            have hcommitted : Committed env l.world w'.camera (w'.commit env ["quality_tier"]) :=
              committed_commit rfl hmade.documents
            rw [durableTier_of_live hasked hlive]
            simp only [Bool.true_and, Bool.or_eq_true, decide_eq_true_eq, List.isEmpty_iff]
            exact h.of_kept_iff hquality hcommitted

theorem agrees_start (env : Env) (seed : World) (persisted : Option Document) : Agrees (start zones env seed persisted) where
  quality := rfl
  document := by
    have hdocuments : (start zones env seed persisted).world.documents = [] := by
      calc (start zones env seed persisted).world.documents
        _ = (World.publishState env _).documents := (applyGpio_quiet _).documents
        _ = [] := publishState_documents _
    intro d hd
    rw [hdocuments] at hd
    cases hd

theorem Agrees.run (h : Agrees l) {events : List Event} (hkeep : l.allKeep zones events = true) :
    Agrees (l.run zones events) := by
  induction events generalizing l with
  | nil => exact h
  | cons e events ih =>
    obtain ⟨hstep, hrest⟩ := (Bool.and_eq_true _ _).mp hkeep
    exact ih ((h.step_iff e).mpr hstep) hrest

theorem allKeep_of_append {front back : List Event} (h : l.allKeep zones (front ++ back) = true) :
    l.allKeep zones front = true := by
  induction front generalizing l with
  | nil => rfl
  | cons e front ih =>
    obtain ⟨hstep, hrest⟩ := (Bool.and_eq_true _ _).mp h
    exact (Bool.and_eq_true _ _).mpr ⟨hstep, ih hrest⟩

/-- The tier 3 is restored; then the camera is switched to tier 1, for good or not, and gets a name. -/
def renamed (persist : Bool) : List Event :=
  [.mutate workingEnv (.quality (.int 5) persist), .mutate workingEnv (.cameraName (.str "porch"))]

def restored : Ledger := start [] workingEnv { camera := {} } (some ({ quality := 3 } : CameraState).persistableState)

end Ledger

end Steps

end PiBuddyCam.Settings
