import PiBuddyCam.SetupSteps

/-! What a finished setup leaves for the next boot. Every call of the portal but a persist
and a finish leaves the state file and the session's copy of the state alone; the two
others walk along the chain of states. -/
namespace PiBuddyCam.Setup

open Provisioning

attribute [local irreducible] PyText.strip

def Op.Quiet : Op → Prop
  | .saveState _ => False
  | _ => True

/-- The program leaves the state file alone, and of the session what it was last persisted as. -/
def Calm {α : Type} (s : Session) : Run (Session × α) → Prop
  | .ret out => out.1.persisted = s.persisted ∧ out.1.provisioningState = s.provisioningState
  | .call o k => o.Quiet ∧ ∀ r, Calm s (k r)

theorem Calm.of_yields {α : Type} {s : Session} {p : Run (Session × α)}
    (h : p.Yields Op.Asks fun out => out.1.persisted = s.persisted ∧ out.1.provisioningState = s.provisioningState) :
    Calm s p := by
  induction p with
  | ret out => exact h
  | call o k ih =>
    refine ⟨?_, fun r => ih r (h.2 r)⟩
    cases o with
    | saveState file => exact h.1.elim
    | _ => trivial

variable (w : Wizard)

theorem calm_scanNetworks (s : Session) : Calm s (scanNetworks w s) := by
  apply Calm.of_yields
  apply (scanNetworks_alike w s).yields.mono (fun _ ho => ho)
  rintro out ⟨_, _, _, hkeeps⟩
  exact ⟨hkeeps.persisted, hkeeps.state⟩

theorem calm_submitStep (s : Session) (data : Data) (skip : Bool) {step : Step} (hp : step ≠ .persist)
    (hf : step ≠ .finish) : Calm s (submitStep w s step data skip) := by
  apply Calm.of_yields
  apply (submitStep_alike w s data skip hp hf).yields.mono (fun _ ho => ho)
  rintro out ⟨_, hout⟩
  exact ⟨hout.persisted, hout.state⟩

def Saving (c : Choice) : Prop := c.saved = true

def Disk.found (w : Wizard) (d : Disk) : State := (ProvisioningState.load w.host.printable d.state).state

section Walks

variable {w : Wizard} {d : Disk} {facts : Facts} {stop : State}

theorem saveState_saved (file : StateFile) (d : Disk) :
    Prog.Safe appliance Saving (fun _ => True) (saveState file) (fun ok d' => ok = true ∧ d'.state = file) d := by
  intro c hc
  have hsaved : c.saved = true := hc
  refine ⟨trivial, hsaved, ?_⟩
  simp only [appliance, Disk.step]
  rw [if_pos hsaved]

def drift (stop : State) (facts : Facts) : ℕ → State → State
  | 0, s => s
  | n+1, s => if s = stop then s else drift stop facts n (facts.lead s)

theorem drift_fixed {s : State} (h : facts.lead s = s) (n : ℕ) : drift stop facts n s = s := by
  induction n with
  | zero => rfl
  | succ n ih => rw [drift, h, ih, ite_self]

theorem walk_saved {st : ProvisioningState} (hf : facts.Steady) (n : ℕ)
    (hst : Mirrors w.host.printable st d.state) :
    Prog.Safe appliance Saving (fun _ => True) (walk w stop facts n st)
      (fun st' d' => d'.found w = st'.state ∧ st'.state = drift stop facts n st.state) d := by
  induction n generalizing st d with
  | zero => exact ⟨hst.state, rfl⟩
  | succ n ih =>
    rw [walk, drift]
    split_ifs with hstop
    · exact ⟨hst.state, rfl⟩
    intro c _
    refine ⟨trivial, ?_⟩
    apply (advance_saved saveState_saved hst hf).bind
    rintro out d' ⟨hmirrors, hstate, hok⟩
    split_ifs with hend
    · -- the walk stops where it stands, and would stay there
      have hstay : facts.lead st.state = st.state := by
        rw [← hstate]
        exact hend.elim hok id
      refine ⟨hmirrors.state, ?_⟩
      rw [drift_fixed (hstay.symm ▸ hstay), hstate]
    · rw [← hstate]
      exact ih hmirrors

theorem walkFromDisk_saved (hf : facts.Steady) :
    Prog.Safe appliance Saving (fun _ => True) (walkFromDisk w stop facts)
      (fun state d' => d'.found w = state ∧ state = drift stop facts states.length (d.found w)) d := by
  intro c _
  refine ⟨trivial, ?_⟩
  apply (walk_saved hf states.length (mirrors_load d.state)).bind
  rintro st d' ⟨hfound, hdrift⟩
  exact ⟨hfound, hdrift⟩

theorem wizardFacts_steady (s : Session) (cameraRunning : Bool) : (wizardFacts s cameraRunning).Steady :=
  ⟨rfl, rfl, rfl⟩

/-- From a state before the runtime the last walk reaches the camera's states exactly when
the camera was validated, or the device was claimed already. -/
theorem finalized_mem_cameraStates_iff (s : Session) {state : State} (h : state ∈ preRuntimeStates) :
    drift .running (wizardFacts s true) states.length state ∈ cameraStates ↔
      s.cameraValidated = true ∨ state = .claimed := by
  unfold wizardFacts
  generalize decide (s.token ≠ "") = token
  cases s.cameraValidated <;> cases token <;> revert h <;> cases state <;> decide

end Walks

def Synced (w : Wizard) (s : Session) (d : Disk) : Prop :=
  s.persisted = true → s.provisioningState = some (d.found w)

section Calls

variable {w : Wizard} {s : Session} {d : Disk} {α : Type}

def Op.Silent : Op → Prop
  | .saveState _ | .saveDevice _ | .saveSecrets _ => False
  | _ => True

theorem ask_safe {o : Op} {f : Res o → Run α} {Q : α → Disk → Prop} (ho : o.Silent)
    (hf : ∀ r, Prog.Safe appliance Saving (fun _ => True) (f r) Q d) :
    Prog.Safe appliance Saving (fun _ => True) (sys o >>= f) Q d := by
  intro c _
  have hd : (appliance.step d o c).2 = d := by
    cases o with
    | saveState file => exact ho.elim
    | saveDevice device => exact ho.elim
    | saveSecrets secrets => exact ho.elim
    | _ => rfl
  rw [hd]
  exact ⟨trivial, hf _⟩

theorem Calm.safe {p : Run (Session × α)} (hp : Calm s p) (hs : Synced w s d) :
    Prog.Safe appliance Saving (fun _ => True) p (fun out d' => Synced w out.1 d') d := by
  induction p generalizing d with
  | ret out =>
    intro hpersisted
    rw [hp.2]
    exact hs (hp.1 ▸ hpersisted)
  | call o k ih =>
    intro c _
    refine ⟨trivial, ih _ (hp.2 _) ?_⟩
    have hstate : (appliance.step d o c).2.state = d.state := by
      cases o with
      | saveState file => exact hp.1.elim
      | saveDevice device => simp only [appliance, Disk.step]; split_ifs <;> rfl
      | saveSecrets secrets => simp only [appliance, Disk.step]; split_ifs <;> rfl
      | _ => rfl
    unfold Synced Disk.found
    rw [hstate]
    exact hs

/-- After a call on the session `s`: the session is in step with the disk, and a success
means what a finished setup means for the next boot. -/
def Finished (w : Wizard) (s : Session) (d : Disk) (out : Session × Option StepResult) (d' : Disk) : Prop :=
  Synced w out.1 d' ∧ ∀ r, out.2 = some r → r.ok = true →
    (d'.found w ∈ cameraStates ↔ s.cameraValidated = true ∨ d.found w = .claimed)

theorem finished_of_failure {r : StepResult} (hs : Synced w s d) (hr : r.ok = false) :
    Finished w s d (s, some r) d := by
  refine ⟨hs, fun r' hr' hok => ?_⟩
  obtain rfl : r = r' := Option.some.inj hr'
  exact absurd (hr.symm.trans hok) Bool.false_ne_true

theorem stayInSetup_finished (hs : Synced w s d) (reason : String) :
    Prog.Safe appliance Saving (fun _ => True) (stayInSetup w s reason) (Finished w s d) d := by
  apply Prog.Safe.bind (Q := fun _ d' => d' = d)
  · refine ask_safe trivial fun (r : Option (Bool × String)) => ?_
    rcases r with - | ⟨ok, detail⟩
    · rfl
    · cases ok <;> rfl
  · rintro note d' rfl
    exact finished_of_failure hs rfl

theorem startAndFinalize_finished (hs : Synced w s d) (hpre : d.found w ∈ preRuntimeStates) :
    Prog.Safe appliance Saving (fun _ => True) (startAndFinalize w s) (Finished w s d) d := by
  refine ask_safe trivial fun (r : Option Bool) => ?_
  rcases r with - | - | -
  · exact stayInSetup_finished hs _
  · exact stayInSetup_finished hs _
  · apply Prog.Safe.bind (Q := fun s' d' => s' = { s with provisioningState := some (d'.found w) } ∧
      d'.found w = drift .running (wizardFacts s true) states.length (d.found w))
    · apply (walkFromDisk_saved (wizardFacts_steady s true)).bind
      rintro state d' ⟨rfl, hdrift⟩
      exact ⟨rfl, hdrift⟩
    · rintro s' d' ⟨rfl, hdrift⟩
      refine ⟨fun _ => rfl, fun _ _ _ => ?_⟩
      rw [hdrift]
      exact finalized_mem_cameraStates_iff s hpre

theorem finish_finished (hs : Synced w s d) (cameraRunning : Value) :
    Prog.Safe appliance Saving (fun _ => True) (finish w s cameraRunning) (Finished w s d) d := by
  unfold finish
  dsimp only
  generalize (if cameraRunning.isNull = true then w.cameraRunning else cameraRunning.truthy) = running
  split_ifs with hp hstart hallowed hstation
  · exact finished_of_failure hs rfl
  · exact finished_of_failure hs rfl
  · exact finished_of_failure hs rfl
  all_goals rw [Bool.not_eq_true', Bool.not_eq_false] at hp hallowed
  -- what the hand-off guard saw is what is on the disk
  all_goals
    have hpre : d.found w ∈ preRuntimeStates := by
      obtain ⟨state, hmem, heq⟩ := sensorHandoffAllowed_eq_true hallowed
      rw [hs hp] at heq
      exact Option.some.inj heq ▸ hmem
    refine ask_safe trivial fun (r : Option (Bool × String)) => ?_
    rcases r with - | ⟨- | -, reason⟩
    · exact ⟨hs, nofun⟩
    · exact finished_of_failure hs rfl
  · refine ask_safe trivial fun (r : Option (Bool × String)) => ?_
    dsimp only
    split
    · exact stayInSetup_finished hs _
    · exact startAndFinalize_finished hs hpre
  · exact startAndFinalize_finished hs hpre

theorem stepPersist_synced (hs : Synced w s d) :
    Prog.Safe appliance Saving (fun _ => True) (stepPersist w s) (fun out d' => Synced w out.1 d') d := by
  unfold stepPersist
  dsimp only
  split
  iterate 4 exact hs
  refine (Prog.safe_op_bind _ _).mpr fun c _ => ⟨trivial, ?_⟩
  have hd : Synced w s (appliance.step d (.saveDevice (buildDocuments w s).1) c).2 := by
    simp only [appliance, Disk.step]
    split_ifs <;> exact hs
  revert hd
  generalize (appliance.step d (.saveDevice (buildDocuments w s).1) c).2 = d₁
  intro hd
  split_ifs
  · exact hd
  refine (Prog.safe_op_bind _ _).mpr fun c' _ => ⟨trivial, ?_⟩
  split_ifs with hwritten
  · simp only [appliance, Disk.step]
    split_ifs <;> exact hd
  · apply (walkFromDisk_saved (wizardFacts_steady _ false)).bind
    rintro state d' ⟨rfl, -⟩
    exact fun _ => rfl

theorem submitStep_finish (hs : Synced w s d) (data : Data) (skip : Bool) :
    Prog.Safe appliance Saving (fun _ => True) (submitStep w s .finish data skip)
      (fun out d' => Finished w s d (out.1, some out.2) d') d := by
  apply submitStep_rule (C := fun p => Prog.Safe appliance Saving (fun _ => True) p _ d) (Or.inr rfl)
  · intro r hr
    exact finished_of_failure hs hr
  intro _ _
  apply Prog.Safe.bind (Q := fun out d' => Synced w out.1 d' ∧ (out.2 = .accepted →
    (d'.found w ∈ cameraStates ↔ s.cameraValidated = true ∨ d.found w = .claimed)))
  · apply (finish_finished hs _).bind
    rintro ⟨s', r⟩ d' ⟨hsync, hboot⟩
    cases r with
    | none => exact ⟨hsync, nofun⟩
    | some r =>
      refine ⟨hsync, fun hok => hboot r rfl ?_⟩
      by_contra hne
      exact nomatch (if_neg hne).symm.trans hok
  · rintro ⟨s', verdict⟩ d' ⟨hsync, hboot⟩
    cases verdict with
    | accepted => exact ⟨hsync, fun _ _ _ => hboot rfl⟩
    | rejected reason => exact ⟨hsync, fun r hr hok => by cases hr; exact nomatch hok⟩
    | raised => exact ⟨hsync, fun r hr hok => by cases hr; exact nomatch hok⟩

theorem submitStep_synced {step : Step} (hs : Synced w s d) (hstep : step ≠ .finish) (data : Data) (skip : Bool) :
    Prog.Safe appliance Saving (fun _ => True) (submitStep w s step data skip)
      (fun out d' => Synced w out.1 d') d := by
  by_cases hp : step = .persist
  · subst hp
    apply submitStep_rule (C := fun p => Prog.Safe appliance Saving (fun _ => True) p _ d) (Or.inl rfl)
    · exact fun _ _ => hs
    · intro _ _
      apply (stepPersist_synced hs).bind
      rintro ⟨s', verdict⟩ d' hsync
      cases verdict <;> exact hsync
  · exact (calm_submitStep w s data skip hp hstep).safe hs

end Calls

def Input.Finishes : Input → Prop
  | .submit name _ => name = Step.finish.name
  | .finish _ => True
  | _ => False

theorem serve_synced {w : Wizard} {s : Session} {d : Disk} (hs : Synced w s d) (input : Input) :
    Prog.Safe appliance Saving (fun _ => True) (serve w s input)
      (fun out d' => Synced w out.1 d' ∧ (input.Finishes → Finished w s d out d')) d := by
  cases input with
  | setStep name =>
    rw [serve]
    split <;> exact ⟨hs, False.elim⟩
  | scan =>
    apply ((calm_scanNetworks w s).safe hs).bind
    rintro ⟨s', verdict⟩ d' hsync
    cases verdict <;> exact ⟨hsync, False.elim⟩
  | submit name data =>
    apply Prog.Safe.bind (Q := fun out d' => Synced w out.1 d' ∧ (name = Step.finish.name →
      Finished w s d (out.1, some out.2) d'))
    swap
    · exact fun _ _ h => h
    apply submit_rule (C := fun p => Prog.Safe appliance Saving (fun _ => True) p _ d)
    · intro r hr
      exact ⟨hs, fun _ => finished_of_failure hs hr⟩
    · intro step fields skip hname
      by_cases hf : step = .finish
      · subst hf
        exact (submitStep_finish hs fields skip).post fun out d' h => ⟨h.1, fun _ => h⟩
      · refine (submitStep_synced hs hf fields skip).post fun out d' h => ⟨h, fun hlast => ?_⟩
        exact absurd (Step.name_injective (hname.trans hlast)) hf
  | finish cameraRunning => exact (finish_finished hs cameraRunning).post fun out d' h => ⟨h.1, fun _ => h⟩

structure Turn where
  input : Input
  answers : ℕ → Choice

def turn (w : Wizard) (p : Session × Disk) (t : Turn) : Option StepResult × Session × Disk :=
  let out := (serve w p.1 t.input).run appliance t.answers p.2
  (out.1.2, out.1.1, out.2)

def after (w : Wizard) (d : Disk) (turns : List Turn) : Session × Disk :=
  turns.foldl (fun p t => (turn w p t).2) ({}, d)

theorem after_append (d : Disk) (turns : List Turn) (t : Turn) :
    after w d (turns ++ [t]) = (turn w (after w d turns) t).2 := by
  rw [after, List.foldl_append]
  rfl

theorem turn_synced {w : Wizard} {p : Session × Disk} {t : Turn} (hp : Synced w p.1 p.2)
    (ht : ∀ n, Saving (t.answers n)) :
    Synced w (turn w p t).2.1 (turn w p t).2.2 ∧
      (t.input.Finishes → Finished w p.1 p.2 ((turn w p t).2.1, (turn w p t).1) (turn w p t).2.2) :=
  (serve_synced hp t.input).run ht

theorem after_synced (d : Disk) {turns : List Turn} (h : ∀ t ∈ turns, ∀ n, Saving (t.answers n)) :
    Synced w (after w d turns).1 (after w d turns).2 := by
  induction turns using List.reverseRecOn with
  | nil => exact (nomatch ·)
  | append_singleton turns t ih =>
    rw [after_append]
    exact (turn_synced (ih fun t' ht' => h t' (List.mem_append_left _ ht')) (h t (by simp))).1

/-- After a sequence of calls that ends with a successful finish, every save of the state
having succeeded, the next boot selects the camera exactly when the last status step found
a working camera, or the device was claimed before that finish. -/
theorem finished_setup_boots_camera_iff (w : Wizard) (d : Disk) (turns : List Turn) (last : Turn)
    (hsaved : ∀ t ∈ turns ++ [last], ∀ n, (t.answers n).saved = true) (hlast : last.input.Finishes)
    (hok : ∃ r, (turn w (after w d turns) last).1 = some r ∧ r.ok = true) :
    resolveMode w.host.printable (after w d (turns ++ [last])).2.state = .camera ↔
      (after w d turns).1.cameraValidated = true ∨ (after w d turns).2.found w = .claimed := by
  have hsync := after_synced w d fun t ht => hsaved t (List.mem_append_left _ ht)
  obtain ⟨-, hfinished⟩ := turn_synced hsync (hsaved last (by simp))
  obtain ⟨r, hr, hrok⟩ := hok
  rw [after_append, ← (hfinished hlast).2 r hr hrok, resolveMode]
  simp [Disk.found]

def plainWizard : Wizard where
  host := ⟨fun _ => true, id, fun _ => .valid, fun _ => .valid, fun _ => none⟩
  hasProbe := true
  hasStartCamera := true

def workingChoice : Choice where
  value := some (.probe { ok := true })
  hash := .ok "scrypt"
  outcome := some (true, "")
  started := some true

def workingTurn (input : Input) : Turn := ⟨input, fun _ => workingChoice⟩

def requiredTurns : List Turn :=
  [workingTurn (.submit "wifi" (some [("ssid", .str "lab")])),
   workingTurn (.submit "admin_password" (some [("password", .str "12345678"), ("confirm", .str "12345678")])),
   workingTurn (.submit "persist" (some []))]

def finishTurn : Turn := workingTurn (.submit "finish" (some []))

theorem workingTurns_saved (inputs : List Input) :
    ∀ t ∈ inputs.map workingTurn, ∀ n, (t.answers n).saved = true := by
  intro t ht n
  obtain ⟨input, -, rfl⟩ := List.mem_map.mp ht
  rfl

/-- With the status step, the device comes back with the camera. -/
theorem setup_with_status_boots_camera :
    resolveMode plainWizard.host.printable
      (after plainWizard {} ((workingTurn (.submit "status" (some [])) :: requiredTurns) ++ [finishTurn])).2.state =
        .camera :=
  (finished_setup_boots_camera_iff plainWizard {} (workingTurn (.submit "status" (some [])) :: requiredTurns) finishTurn
    (workingTurns_saved [_, _, _, _, _]) rfl
    (Option.map_eq_some_iff.mp (by decide +kernel))).mpr (.inl (by decide +kernel))

/-- Without it, the finish succeeds and the device comes back with the setup wizard. -/
theorem setup_without_status_boots_wizard :
    (∀ t ∈ requiredTurns ++ [finishTurn], ∀ n, (t.answers n).saved = true) ∧
      (turn plainWizard (after plainWizard {} requiredTurns) finishTurn).1.map StepResult.ok = some true ∧
      resolveMode plainWizard.host.printable (after plainWizard {} (requiredTurns ++ [finishTurn])).2.state =
        .provisioning :=
  ⟨workingTurns_saved [_, _, _, _], by decide +kernel, by decide +kernel⟩

end PiBuddyCam.Setup
