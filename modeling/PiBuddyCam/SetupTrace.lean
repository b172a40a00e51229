import PiBuddyCam.SetupBoot
import PiBuddyCam.TraceOrder

/-! The order of what a setup does to the device. The camera is started only through the
gates of `finish`, and a finish that fails past the first of them opens the hotspot again. -/
namespace PiBuddyCam.Setup

open Trace

abbrev Entry := (o : Op) × Res o

def Stopped (e : Entry) : Prop := ∃ reason, e = ⟨.hotspotStop, some (true, reason)⟩

def Joined (e : Entry) : Prop := ∃ ssid psk reason, e = ⟨.activateStation ssid psk, some (true, reason)⟩

def Started (e : Entry) : Prop := e = ⟨.startCamera, some true⟩

def Restart (e : Entry) : Prop := ∃ ssid r, e = ⟨.hotspotStart ssid, r⟩

def DeviceSaved (e : Entry) : Prop := ∃ device, e = ⟨.saveDevice device, true⟩

def SecretsSaved (e : Entry) : Prop := ∃ secrets, e = ⟨.saveSecrets secrets, true⟩

def gates (w : Wizard) : List (Entry → Prop) := if w.hasActivateStation then [Stopped, Joined] else [Stopped]

def Op.Walks : Op → Prop
  | .loadState | .clock | .saveState _ => True
  | _ => False

/-- The camera is started behind the gates, and a finish walks along the chain of states only
when the camera was started. -/
def Allowed (w : Wizard) (input : Input) (e : Entry) (pre : List Entry) : Prop :=
  (e.1 = .startCamera → InOrder (gates w) pre) ∧ (input.Finishes → e.1.Walks → ∃ x ∈ pre, Started x)

def Succeeds (r : Option StepResult) : Prop := ∃ x, r = some x ∧ x.ok = true

def Orderly (out : Session × Option StepResult) (l : List Entry) : Prop :=
  Succeeds out.2 ∨ Answered Stopped Restart l

section Finish

variable {w : Wizard} {input : Input} {s : Session} {l : List Entry}

theorem log_ask {α : Type} {o : Op} {f : Res o → Run α} {Q : α → List Entry → Prop}
    (hl : OnlyAfter (Allowed w input) l) (hcamera : o ≠ .startCamera) (hwalk : ¬ o.Walks)
    (hf : ∀ r, OnlyAfter (Allowed w input) (l ++ [⟨o, r⟩]) →
      (f r).LogSafe (OnlyAfter (Allowed w input)) Q (l ++ [⟨o, r⟩])) :
    (sys o >>= f).LogSafe (OnlyAfter (Allowed w input)) Q l := by
  apply Prog.logSafe_op_bind
  intro r
  have hl' : OnlyAfter (Allowed w input) (l ++ [⟨o, r⟩]) :=
    hl.snoc ⟨fun h => absurd h hcamera, fun _ h => absurd h hwalk⟩
  exact ⟨hl', hf r hl'⟩

theorem log_stayInSetup (hl : OnlyAfter (Allowed w input) l) (reason : String) :
    (stayInSetup w s reason).LogSafe (OnlyAfter (Allowed w input)) Orderly l := by
  refine log_ask hl nofun id fun (r : Option (Bool × String)) _ => ?_
  have hrestart : Answered Stopped Restart (l ++ [⟨.hotspotStart (setupSsid w.host w.deviceId), r⟩]) := by
    refine Answered.snoc l ⟨_, r, rfl⟩ ?_
    rintro ⟨reason, h⟩
    cases h
  rcases r with - | ⟨ok, detail⟩
  · exact Or.inr hrestart
  · cases ok <;> exact Or.inr hrestart

theorem walk_within (stop : Provisioning.State) (facts : Provisioning.Facts) (n : ℕ)
    (st : Provisioning.ProvisioningState) : (walk w stop facts n st).Within Op.Walks := by
  induction n generalizing st with
  | zero => trivial
  | succ n ih =>
    rw [walk]
    split_ifs
    · trivial
    · refine ⟨trivial, fun now => ?_⟩
      have hsave (file : Provisioning.StateFile) : (saveState file).Within Op.Walks := ⟨trivial, fun _ => trivial⟩
      apply (Provisioning.ProvisioningState.advance_within hsave st now facts).bind
      intro out
      split_ifs
      · trivial
      · exact ih out.2

theorem walkFromDisk_within (stop : Provisioning.State) (facts : Provisioning.Facts) :
    (walkFromDisk w stop facts).Within Op.Walks :=
  ⟨trivial, fun file => (walk_within stop facts _ (.load w.host.printable file)).bind fun _ => trivial⟩

theorem log_walk {α : Type} {p : Run α} (hp : p.Within Op.Walks) (hl : OnlyAfter (Allowed w input) l)
    (hstarted : ∃ x ∈ l, Started x) : p.LogSafe (OnlyAfter (Allowed w input)) (fun _ _ => True) l := by
  have h := Prog.Within.safe (m := traceMachine Op Res) (A := fun _ => True)
    (J := fun l' => OnlyAfter (Allowed w input) l' ∧ ∃ x ∈ l', Started x) hp ⟨hl, hstarted⟩ ?_
  · exact h.mono (fun _ h => h.1) fun _ _ _ => trivial
  · rintro l' o c ho - ⟨hl', x, hx, hstart⟩
    refine ⟨hl'.snoc ⟨?_, fun _ _ => ⟨x, hx, hstart⟩⟩, x, List.mem_append_left _ hx, hstart⟩
    rintro rfl
    exact ho.elim

theorem log_startAndFinalize (hl : OnlyAfter (Allowed w input) l) (hgates : InOrder (gates w) l) :
    (startAndFinalize w s).LogSafe (OnlyAfter (Allowed w input)) Orderly l := by
  refine Prog.logSafe_op_bind fun (r : Option Bool) => ?_
  have hl' : OnlyAfter (Allowed w input) (l ++ [⟨.startCamera, r⟩]) := hl.snoc ⟨fun _ => hgates, fun _ h => h.elim⟩
  refine ⟨hl', ?_⟩
  rcases r with - | - | -
  · exact log_stayInSetup hl' _
  · exact log_stayInSetup hl' _
  · have hstarted : ∃ x ∈ l ++ [⟨.startCamera, some true⟩], Started x :=
      ⟨_, List.mem_append_right l List.mem_cons_self, rfl⟩
    have hfinalize : (finalizeProvisioning w s).Within Op.Walks := (walkFromDisk_within _ _).bind fun _ => trivial
    apply Prog.Safe.bind (log_walk hfinalize hl' hstarted)
    intro finalized _ _
    exact Or.inl ⟨_, rfl, rfl⟩

theorem log_finish (w : Wizard) (input : Input) (s : Session) (cameraRunning : Value) :
    (finish w s cameraRunning).LogSafe (OnlyAfter (Allowed w input)) Orderly [] := by
  have hnone {l : List Entry} (out : Session × Option StepResult) (h : ∀ e ∈ l, ¬ Stopped e) : Orderly out l :=
    Or.inr (Answered.of_none h)
  unfold finish
  dsimp only
  generalize (if cameraRunning.isNull = true then w.cameraRunning else cameraRunning.truthy) = running
  split_ifs with _ _ _ hstation
  · exact hnone _ (List.forall_mem_nil _)
  · exact hnone _ (List.forall_mem_nil _)
  · exact hnone _ (List.forall_mem_nil _)
  all_goals
    refine log_ask (OnlyAfter.nil _) nofun id fun (r : Option (Bool × String)) hl => ?_
    rcases r with - | ⟨- | -, reason⟩
    · refine hnone _ (List.forall_mem_singleton.mpr ?_)
      rintro ⟨_, h⟩
      cases h
    · refine hnone _ (List.forall_mem_singleton.mpr ?_)
      rintro ⟨_, h⟩
      cases h
    have hstopped : InOrder [Stopped] ([] ++ [⟨.hotspotStop, some (true, reason)⟩]) :=
      (InOrder.nil []).snoc ⟨reason, rfl⟩
  · -- with a station to activate there is one gate more
    refine log_ask hl nofun id fun (r : Option (Bool × String)) hl' => ?_
    rcases r with - | ⟨- | -, detail⟩
    · exact log_stayInSetup hl' _
    · exact log_stayInSetup hl' _
    · apply log_startAndFinalize hl'
      rw [gates, if_pos hstation]
      exact hstopped.snoc ⟨_, _, detail, rfl⟩
  · apply log_startAndFinalize hl
    rw [gates, if_neg hstation]
    exact hstopped

theorem log_submitStep_finish (w : Wizard) (input : Input) (s : Session) (data : Data) (skip : Bool) :
    (submitStep w s .finish data skip).LogSafe (OnlyAfter (Allowed w input))
      (fun out l => Orderly (out.1, some out.2) l) [] := by
  apply submitStep_rule (C := fun p => p.LogSafe _ _ []) (Or.inr rfl)
  · exact fun _ _ => Or.inr (Answered.of_none (List.forall_mem_nil _))
  intro _ _
  apply Prog.Safe.bind (Q := fun out l => out.2 = .accepted ∨ Answered Stopped Restart l)
  · apply Prog.Safe.bind (log_finish w input s (data.get "camera_running"))
    rintro ⟨s', r⟩ l (⟨x, hx, hok⟩ | hl)
    · obtain rfl : r = some x := hx
      exact Or.inl (if_pos hok)
    · cases r <;> exact Or.inr hl
  · rintro ⟨s', verdict⟩ l (rfl | hl)
    · exact Or.inl ⟨_, rfl, rfl⟩
    · cases verdict <;> exact Or.inr hl

end Finish

def Op.Local : Op → Prop
  | .hotspotStop | .hotspotStart _ | .activateStation _ _ | .startCamera => False
  | _ => True

theorem Op.Asks.local {o : Op} (h : o.Asks) : o.Local := by
  cases o <;> trivial

theorem Op.Walks.local {o : Op} (h : o.Walks) : o.Local := by
  cases o <;> trivial

section Local

variable {w : Wizard} {s : Session}

theorem stepPersist_within : (stepPersist w s).Within Op.Local := by
  unfold stepPersist
  dsimp only
  split
  iterate 4 trivial
  refine ⟨trivial, fun (r : Bool) => ?_⟩
  cases r with
  | false => trivial
  | true =>
    refine ⟨trivial, fun (r : Bool) => ?_⟩
    cases r with
    | false => trivial
    | true =>
      apply ((walkFromDisk_within _ _).mono fun _ => Op.Walks.local).bind
      exact fun _ => trivial

theorem submitStep_within {step : Step} (hstep : step = .finish → s.persisted = false) (data : Data) (skip : Bool) :
    (submitStep w s step data skip).Within Op.Local := by
  by_cases hp : step = .persist
  · apply submitStep_rule (C := fun p => p.Within Op.Local) (Or.inl hp)
    · exact fun _ _ => trivial
    · intro _ _
      subst hp
      apply stepPersist_within.bind
      rintro ⟨s', verdict⟩
      cases verdict <;> trivial
  by_cases hf : step = .finish
  · apply submitStep_rule (C := fun p => p.Within Op.Local) (Or.inr hf)
    · exact fun _ _ => trivial
    · intro _ hpersisted
      exact absurd ((hstep hf).symm.trans (hpersisted hf)) Bool.false_ne_true
  · exact (submitStep_alike w s data skip hp hf).yields.within.mono fun _ => Op.Asks.local

theorem serve_within {input : Input} (h : input.Finishes → s.persisted = false) :
    (serve w s input).Within Op.Local := by
  cases input with
  | setStep name =>
    rw [serve]
    split <;> trivial
  | scan =>
    apply ((scanNetworks_alike w s).yields.within.mono fun _ => Op.Asks.local).bind
    rintro ⟨s', verdict⟩
    cases verdict <;> trivial
  | submit name data =>
    have hsubmit : (submit w s name data).Within Op.Local := by
      apply submit_rule (C := fun p => p.Within Op.Local)
      · exact fun _ _ => trivial
      · intro step fields skip hname
        exact submitStep_within (fun hf => h (by rw [← hname, hf]; rfl)) fields skip
    exact hsubmit.bind fun _ => trivial
  | finish cameraRunning =>
    rw [serve, finish, h trivial, Bool.not_false, if_pos rfl]
    trivial

end Local

theorem log_serve (w : Wizard) (s : Session) (input : Input) :
    (serve w s input).LogSafe (OnlyAfter (Allowed w input)) Orderly [] := by
  by_cases hf : input.Finishes
  · cases input with
    | setStep name => exact hf.elim
    | scan => exact hf.elim
    | submit name data =>
      have hsubmit : (submit w s name data).LogSafe (OnlyAfter (Allowed w (.submit name data)))
          (fun out l => Orderly (out.1, some out.2) l) [] := by
        apply submit_rule (C := fun p => p.LogSafe _ _ [])
        · exact fun _ _ => Or.inr (Answered.of_none (List.forall_mem_nil _))
        · intro step fields skip hname
          obtain rfl : step = .finish := Step.name_injective (hname.trans hf)
          exact log_submitStep_finish w _ s fields skip
      exact .bind hsubmit fun _ _ h => h
    | finish cameraRunning => exact log_finish w _ s cameraRunning
  · have h := Prog.Within.safe (m := traceMachine Op Res) (A := fun _ => True)
      (J := fun l => OnlyAfter (Allowed w input) l ∧ ∀ e ∈ l, e.1.Local)
      (serve_within (w := w) (s := s) fun h => absurd h hf) ⟨OnlyAfter.nil _, List.forall_mem_nil _⟩ ?_
    · refine h.mono (fun _ h => h.1) fun _ l hl => Or.inr (Answered.of_none ?_)
      rintro e he ⟨reason, rfl⟩
      exact hl.2 _ he
    · rintro l o c ho - ⟨hl, hlocal⟩
      refine ⟨hl.snoc ⟨?_, fun h => absurd h hf⟩, List.forall_mem_append.mpr ⟨hlocal, List.forall_mem_singleton.mpr ho⟩⟩
      rintro rfl
      exact ho.elim

def Op.Closing (s : Session) : Op → Prop
  | .saveDevice _ | .saveSecrets _ => False
  | .activateStation ssid psk => ssid = s.wifi.ssid.getD "" ∧ psk = s.wifi.psk.getD ""
  | _ => True

theorem Op.Asks.closing {o : Op} (h : o.Asks) (s : Session) : o.Closing s := by
  cases o <;> trivial

theorem Op.Walks.closing {o : Op} (h : o.Walks) (s : Session) : o.Closing s := by
  cases o <;> trivial

def Closes (s s' : Session) : Prop :=
  ∃ state finished, s' = { s with provisioningState := state, finished := finished }

section Closing

variable (w : Wizard) (s : Session)

theorem stayInSetup_yields (reason : String) :
    (stayInSetup w s reason).Yields (Op.Closing s) fun out => Closes s out.1 := by
  refine ⟨trivial, fun (r : Option (Bool × String)) => ?_⟩
  rcases r with - | ⟨- | -, detail⟩ <;> exact ⟨_, _, rfl⟩

theorem startAndFinalize_yields : (startAndFinalize w s).Yields (Op.Closing s) fun out => Closes s out.1 := by
  refine ⟨trivial, fun (r : Option Bool) => ?_⟩
  rcases r with - | - | -
  · exact stayInSetup_yields w s _
  · exact stayInSetup_yields w s _
  · have hwalk : (walkFromDisk w .running (wizardFacts s true)).Within (Op.Closing s) :=
      (walkFromDisk_within _ _).mono fun _ ho => ho.closing s
    have hfinal : (finalizeProvisioning w s).Yields (Op.Closing s)
        fun s' => ∃ state, s' = { s with provisioningState := state } :=
      hwalk.yields.bind fun state _ => ⟨some state, rfl⟩
    apply hfinal.bind
    rintro s' ⟨state, rfl⟩
    exact ⟨_, _, rfl⟩

theorem finish_yields (cameraRunning : Value) :
    (finish w s cameraRunning).Yields (Op.Closing s) fun out => Closes s out.1 := by
  unfold finish
  dsimp only
  generalize (if cameraRunning.isNull = true then w.cameraRunning else cameraRunning.truthy) = running
  split_ifs
  · exact ⟨_, _, rfl⟩
  · exact ⟨_, _, rfl⟩
  · exact ⟨_, _, rfl⟩
  all_goals
    refine ⟨trivial, fun (r : Option (Bool × String)) => ?_⟩
    rcases r with - | ⟨- | -, reason⟩
    · exact ⟨_, _, rfl⟩
    · exact ⟨_, _, rfl⟩
  · refine ⟨⟨rfl, rfl⟩, fun (r : Option (Bool × String)) => ?_⟩
    rcases r with - | ⟨- | -, detail⟩
    · exact stayInSetup_yields w s _
    · exact stayInSetup_yields w s _
    · exact startAndFinalize_yields w s
  · exact startAndFinalize_yields w s

end Closing

section Persisted

def Backed (s s' : Session) (l : List Entry) : Prop :=
  s'.persisted = true → s.persisted = true ∨ InOrder [DeviceSaved, SecretsSaved] l

variable {w : Wizard} {s : Session}

theorem log_of_yields {α : Type} {p : Run (Session × α)} {P : Op → Prop}
    (hp : p.Yields P fun out => out.1.persisted = s.persisted) :
    p.LogSafe (fun _ => True) (fun out => Backed s out.1) [] := by
  refine (hp.safe (J := fun _ => True) trivial fun _ _ _ _ _ _ => trivial).post ?_
  rintro out l ⟨hpersisted, -⟩ hout
  exact Or.inl (hpersisted ▸ hout)

theorem log_stepPersist (w : Wizard) (s : Session) :
    (stepPersist w s).LogSafe (fun _ => True) (fun out => Backed s out.1) [] := by
  unfold stepPersist
  dsimp only
  split
  iterate 4 exact Or.inl
  refine Prog.logSafe_op_bind fun (r : Bool) => ⟨trivial, ?_⟩
  cases r with
  | false => exact Or.inl
  | true =>
    refine Prog.logSafe_op_bind fun (r : Bool) => ⟨trivial, ?_⟩
    cases r with
    | false => exact Or.inl
    | true =>
      have hsaved : InOrder [DeviceSaved, SecretsSaved]
          (([] ++ [⟨.saveDevice (buildDocuments w s).1, true⟩]) ++ [⟨.saveSecrets (buildDocuments w s).2, true⟩]) :=
        ((InOrder.nil []).snoc (P := DeviceSaved) ⟨_, rfl⟩).snoc ⟨_, rfl⟩
      have hwalk := Prog.Within.safe (m := traceMachine Op Res) (A := fun _ => True)
        (J := InOrder [DeviceSaved, SecretsSaved]) (walkFromDisk_within (w := w) .unclaimed
          (wizardFacts { s with device := some (buildDocuments w s).1, secrets := some (buildDocuments w s).2,
                                persisted := true } false)) hsaved fun l o c _ _ hl => hl.append _
      apply Prog.Safe.bind (hwalk.mono (fun _ _ => trivial) fun _ _ h => h)
      intro state l hl _
      exact Or.inr hl

theorem log_submitStep {step : Step} (data : Data) (skip : Bool) :
    (submitStep w s step data skip).LogSafe (fun _ => True) (fun out => Backed s out.1) [] := by
  by_cases hp : step = .persist
  · subst hp
    apply submitStep_rule (C := fun p => p.LogSafe _ _ []) (Or.inl rfl)
    · exact fun _ _ => Or.inl
    · intro _ _
      apply Prog.Safe.bind (log_stepPersist w s)
      rintro ⟨s', verdict⟩ l hl
      cases verdict <;> exact hl
  by_cases hf : step = .finish
  · subst hf
    apply submitStep_rule (C := fun p => p.LogSafe _ _ []) (Or.inr rfl)
    · exact fun _ _ => Or.inl
    · intro _ _
      apply log_of_yields (P := Op.Closing s)
      apply Prog.Yields.bind (Q := fun out => out.1.persisted = s.persisted)
      · apply (finish_yields w s (data.get "camera_running")).bind
        rintro ⟨s', r⟩ ⟨state, finished, rfl⟩
        cases r <;> rfl
      · rintro ⟨s', verdict⟩ hpersisted
        cases verdict <;> exact hpersisted
  · apply log_of_yields
    apply (submitStep_alike w s data skip hp hf).yields.mono (fun _ ho => ho)
    rintro out ⟨_, hout⟩
    exact hout.persisted

theorem log_backed (w : Wizard) (s : Session) (input : Input) :
    (serve w s input).LogSafe (fun _ => True) (fun out => Backed s out.1) [] := by
  cases input with
  | setStep name =>
    rw [serve]
    split <;> exact Or.inl
  | scan =>
    apply log_of_yields (P := Op.Asks)
    apply (scanNetworks_alike w s).yields.bind
    rintro ⟨s', verdict⟩ ⟨_, _, _, hkeeps⟩
    cases verdict <;> exact hkeeps.persisted
  | submit name data =>
    have hsubmit : (submit w s name data).LogSafe (fun _ => True) (fun out => Backed s out.1) [] := by
      apply submit_rule (C := fun p => p.LogSafe _ _ [])
      · exact fun _ _ => Or.inl
      · exact fun step fields skip _ => log_submitStep fields skip
    exact .bind hsubmit fun _ _ h => h
  | finish cameraRunning =>
    apply log_of_yields
    apply (finish_yields w s cameraRunning).mono (fun _ ho => ho)
    rintro out ⟨state, finished, hout⟩
    rw [hout]

end Persisted

def turnLog (w : Wizard) (p : Session × Disk) (t : Turn) : List Entry :=
  ((serve w p.1 t.input).run appliance.traced t.answers ⟨p.2, []⟩).2.log

theorem turn_of_log {w : Wizard} {p : Session × Disk} {t : Turn} {I : List Entry → Prop}
    {Q : Session × Option StepResult → List Entry → Prop} (h : (serve w p.1 t.input).LogSafe I Q []) :
    Q ((turn w p t).2.1, (turn w p t).1) (turnLog w p t) := by
  have hsafe := h.traced (m := appliance) (A := fun _ => True) (t := ⟨p.2, []⟩)
  have hrun := hsafe.run (f := t.answers) fun _ => trivial
  rw [(Prog.run_traced _ appliance t.answers _).1] at hrun
  exact hrun

theorem turnLog_within {w : Wizard} {p : Session × Disk} {t : Turn} {P : Op → Prop}
    (h : (serve w p.1 t.input).Within P) : ∀ e ∈ turnLog w p t, P e.1 := by
  have hlog := Prog.Within.log (m := appliance) (A := fun _ => True) h ⟨p.2, []⟩
  obtain ⟨more, hmore, hP⟩ := hlog.run (f := t.answers) fun _ => trivial
  rw [turnLog, hmore]
  exact hP

theorem documents_saved (w : Wizard) (d : Disk) (turns : List Turn) (h : (after w d turns).1.persisted = true) :
    ∃ earlier t later, turns = earlier ++ t :: later ∧
      InOrder [DeviceSaved, SecretsSaved] (turnLog w (after w d earlier) t) := by
  induction turns using List.reverseRecOn with
  | nil => exact nomatch h
  | append_singleton turns t ih =>
    rw [after_append] at h
    rcases turn_of_log (log_backed w _ t.input) h with hbefore | hnow
    · obtain ⟨earlier, t', later, rfl, hsaved⟩ := ih hbefore
      exact ⟨earlier, t', later ++ [t], by simp, hsaved⟩
    · exact ⟨turns, t, [], rfl, hnow⟩

/-- Whatever the calls and the device's answers. The camera is started only when both
documents were written in an earlier call, and in its own call after the hotspot's stop and,
where there is one, the station's activation reported success. A finish walks along the chain
of states only after a start of the camera that did not fail. A call that fails has asked for
the hotspot again after any stop that reported success. -/
theorem setup_in_order (w : Wizard) (d : Disk) (turns : List Turn) (last : Turn) :
    (∀ r, ⟨.startCamera, r⟩ ∈ turnLog w (after w d turns) last → ∃ earlier t later, turns = earlier ++ t :: later ∧
      InOrder [DeviceSaved, SecretsSaved] (turnLog w (after w d earlier) t)) ∧
    OnlyAfter (Allowed w last.input) (turnLog w (after w d turns) last) ∧
    (¬ Succeeds (turn w (after w d turns) last).1 →
      Answered Stopped Restart (turnLog w (after w d turns) last)) := by
  have hlog := log_serve w (after w d turns).1 last.input
  refine ⟨fun r hr => ?_, ?_, fun hfails => ?_⟩
  · apply documents_saved w d turns
    by_contra hne
    have hlocal : (serve w (after w d turns).1 last.input).Within Op.Local :=
      serve_within fun _ => Bool.eq_false_iff.mpr hne
    exact turnLog_within hlocal _ hr
  · have hallowed := hlog.keep (OnlyAfter.nil _)
    exact (turn_of_log hallowed).2
  · exact (turn_of_log hlog).resolve_left hfails

end PiBuddyCam.Setup
