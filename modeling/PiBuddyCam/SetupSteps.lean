import PiBuddyCam.ProgPair
import PiBuddyCam.SetupWizard

/-! What one step of the wizard does, said by running it next to the same step on a fresh
session: both ask the device the same and come to the same verdict, and the session takes
over what the fresh one staged. -/
namespace PiBuddyCam.Setup

attribute [local irreducible] PyText.strip

def Op.Asks : Op → Prop
  | .probe | .wifiScan | .qrDecoder _ | .readMac | .hashPassword _ | .mqttTester _ _ _ => True
  | _ => False

/-- The part of a session that the documents are made of. -/
structure Staged where
  wifi : Wifi := {}
  fingerprint : String := ""
  hostname : String := ""
  mqtt : Mqtt := {}
  token : String := ""
  adminHash : String := ""

def Session.staged (s : Session) : Staged := ⟨s.wifi, s.fingerprint, s.hostname, s.mqtt, s.token, s.adminHash⟩

def Staged.documents (w : Wizard) (st : Staged) : Device × Secrets :=
  buildDocuments w { wifi := st.wifi, fingerprint := st.fingerprint, hostname := st.hostname, mqtt := st.mqtt,
                     token := st.token, adminHash := st.adminHash }

/-- What is staged once the answer `a` of a step is taken. The answer of the imager step only
fills in what is missing, but for a hostname. -/
def Staged.take (st a : Staged) : Step → Staged
  | .imagerPrefill =>
    { st with
      wifi := ⟨st.wifi.ssid <|> a.wifi.ssid, st.wifi.psk <|> a.wifi.psk⟩
      hostname := if a.hostname ≠ "" then a.hostname else st.hostname }
  | .wifi => { st with wifi := a.wifi }
  | .prusaToken => { st with token := a.token }
  | .fingerprint => { st with fingerprint := a.fingerprint }
  | .adminPassword => { st with adminHash := a.adminHash }
  | .mqtt => { st with mqtt := a.mqtt }
  | .status | .summary | .persist | .finish => st

/-- What every step but the last two leaves alone in a session. -/
structure Session.Keeps (s s' : Session) : Prop where
  persisted : s'.persisted = s.persisted
  state : s'.provisioningState = s.provisioningState
  completed : s'.completed = s.completed

/-- What the handler of a step makes of `s`, next to what it makes of a fresh session. -/
structure Handled (s : Session) (step : Step) (out fresh : Session × Verdict) : Prop where
  verdict : out.2 = fresh.2
  staged : out.1.staged = match out.2 with
    | .accepted => s.staged.take fresh.1.staged step
    | _ => s.staged
  keeps : s.Keeps out.1

section Steps

open Prog (Alike)

variable (w : Wizard) (s : Session) (data : Data)

theorem stepStatus_alike : Alike Op.Asks (Handled s .status) (stepStatus w s data) (stepStatus w {} data) := by
  unfold stepStatus
  dsimp only
  split
  · exact .op_bind trivial fun _ => .ret ⟨rfl, rfl, rfl, rfl, rfl⟩
  · exact .ret ⟨rfl, rfl, rfl, rfl, rfl⟩

theorem stepImagerPrefill_handled :
    Handled s .imagerPrefill (stepImagerPrefill s data) (stepImagerPrefill {} data) := by
  unfold stepImagerPrefill
  split
  · exact ⟨rfl, rfl, rfl, rfl, rfl⟩
  · refine ⟨rfl, ?_, rfl, rfl, rfl⟩
    by_cases hssid : (data.get "wifi_ssid").text = "" <;> by_cases hpsk : (data.get "wifi_psk").text = "" <;>
      by_cases hhost : (data.get "hostname").text = "" <;>
      simp [Session.staged, Staged.take, hssid, hpsk, hhost]

theorem scanNetworks_alike :
    Alike Op.Asks (fun out fresh => out.2 = fresh.2 ∧ out.1.staged = s.staged ∧ s.Keeps out.1)
      (scanNetworks w s) (scanNetworks w {}) := by
  unfold scanNetworks
  split
  · exact .ret ⟨rfl, rfl, rfl, rfl, rfl⟩
  · refine .op_bind trivial fun (r : Scan) => ?_
    cases r <;> exact .ret ⟨rfl, rfl, rfl, rfl, rfl⟩

variable {s} in
theorem recordWifi_handled {s' : Session} (hstaged : s'.staged = s.staged) (hkeeps : s.Keeps s') (fresh : Session) :
    Handled s .wifi (recordWifi s' data) (recordWifi fresh data) := by
  unfold recordWifi
  split
  · split_ifs
    · exact ⟨rfl, hstaged, hkeeps⟩
    · exact ⟨rfl, hstaged, hkeeps⟩
    · exact ⟨rfl, hstaged, hkeeps⟩
    · refine ⟨rfl, ?_, hkeeps.persisted, hkeeps.state, hkeeps.completed⟩
      rw [← hstaged]
      rfl
  · exact ⟨rfl, hstaged, hkeeps⟩

theorem stepWifi_alike : Alike Op.Asks (Handled s .wifi) (stepWifi w s data) (stepWifi w {} data) := by
  unfold stepWifi
  split
  · apply (scanNetworks_alike w s).bind
    rintro ⟨s', verdict⟩ ⟨fresh, verdict'⟩ ⟨rfl, hstaged, hkeeps⟩
    cases verdict with
    | accepted => exact .ret (recordWifi_handled data hstaged hkeeps fresh)
    | rejected reason => exact .ret ⟨rfl, hstaged, hkeeps⟩
    | raised => exact .ret ⟨rfl, hstaged, hkeeps⟩
  · exact .ret (recordWifi_handled data rfl ⟨rfl, rfl, rfl⟩ {})

theorem recordToken_handled (token : Value) : Handled s .prusaToken (recordToken s token) (recordToken {} token) := by
  unfold recordToken
  split_ifs <;> exact ⟨rfl, rfl, rfl, rfl, rfl⟩

theorem stepPrusaToken_alike :
    Alike Op.Asks (Handled s .prusaToken) (stepPrusaToken w s data) (stepPrusaToken w {} data) := by
  unfold stepPrusaToken
  repeat' split
  all_goals try exact .ret ⟨rfl, rfl, rfl, rfl, rfl⟩
  · refine .op_bind trivial fun (r : Option Value) => ?_
    cases r with
    | none => exact .ret ⟨rfl, rfl, rfl, rfl, rfl⟩
    | some token =>
      dsimp only
      split
      · exact .ret ⟨rfl, rfl, rfl, rfl, rfl⟩
      · exact .ret (recordToken_handled s token)
  · exact .ret (recordToken_handled s _)

theorem stepFingerprint_alike :
    Alike Op.Asks (Handled s .fingerprint) (stepFingerprint w s data) (stepFingerprint w {} data) := by
  unfold stepFingerprint
  dsimp only
  repeat' split
  all_goals try exact .ret ⟨rfl, rfl, rfl, rfl, rfl⟩
  exact .op_bind trivial fun _ => .ret ⟨rfl, rfl, rfl, rfl, rfl⟩

theorem stepAdminPassword_alike :
    Alike Op.Asks (Handled s .adminPassword) (stepAdminPassword s data) (stepAdminPassword {} data) := by
  unfold stepAdminPassword
  repeat' split
  all_goals try exact .ret ⟨rfl, rfl, rfl, rfl, rfl⟩
  refine .op_bind trivial fun (r : Except String String) => ?_
  cases r <;> exact .ret ⟨rfl, rfl, rfl, rfl, rfl⟩

theorem stepMqtt_alike : Alike Op.Asks (Handled s .mqtt) (stepMqtt w s data) (stepMqtt w {} data) := by
  unfold stepMqtt
  dsimp only
  repeat' split
  all_goals try exact .ret ⟨rfl, rfl, rfl, rfl, rfl⟩
  all_goals
    refine .op_bind trivial fun (r : Option (Bool × String)) => ?_
    rcases r with - | ⟨ok, reason⟩
    · exact .ret ⟨rfl, rfl, rfl, rfl, rfl⟩
    · cases ok <;> exact .ret ⟨rfl, rfl, rfl, rfl, rfl⟩

theorem handler_alike {step : Step} (hp : step ≠ .persist) (hf : step ≠ .finish) :
    Alike Op.Asks (Handled s step) (handler w s data step) (handler w {} data step) := by
  cases step with
  | status => exact stepStatus_alike w s data
  | imagerPrefill => exact .ret (stepImagerPrefill_handled s data)
  | wifi => exact stepWifi_alike w s data
  | prusaToken => exact stepPrusaToken_alike w s data
  | fingerprint => exact stepFingerprint_alike w s data
  | adminPassword => exact stepAdminPassword_alike s data
  | mqtt => exact stepMqtt_alike w s data
  | summary => exact .ret ⟨rfl, rfl, rfl, rfl, rfl⟩
  | persist => exact absurd rfl hp
  | finish => exact absurd rfl hf

theorem applySkip_alike {step : Step} (hskip : step ∈ skippableSteps) :
    Alike Op.Asks (fun s' fresh => s'.staged = s.staged.take fresh.staged step ∧ s.Keeps s')
      (applySkip w s step) (applySkip w {} step) := by
  cases step with
  | prusaToken => exact .ret ⟨rfl, rfl, rfl, rfl⟩
  | fingerprint => exact .op_bind trivial fun _ => .ret ⟨rfl, rfl, rfl, rfl⟩
  | mqtt => exact .ret ⟨rfl, rfl, rfl, rfl⟩
  | _ => exact absurd hskip (by decide)

end Steps

/-- What a submission of a step makes of `s`, next to what it makes of a fresh session. -/
structure Submitted (s : Session) (step : Step) (out fresh : Session × StepResult) : Prop where
  verdict : out.2.ok = fresh.2.ok
  staged : out.1.staged = if out.2.ok then s.staged.take fresh.1.staged step else s.staged
  persisted : out.1.persisted = s.persisted
  state : out.1.provisioningState = s.provisioningState
  completed : out.1.completed = if out.2.ok then insert step s.completed else s.completed

theorem submitStep_alike (w : Wizard) (s : Session) (data : Data) (skip : Bool) {step : Step} (hp : step ≠ .persist)
    (hf : step ≠ .finish) :
    Prog.Alike Op.Asks (Submitted s step) (submitStep w s step data skip) (submitStep w {} step data skip) := by
  unfold submitStep
  simp only [hp, hf, false_and, if_false]
  split_ifs with hrefused hskip
  · exact .ret ⟨rfl, rfl, rfl, rfl, rfl⟩
  · have hmem : step ∈ skippableSteps := by
      by_contra hmem
      exact hrefused (by simp [hskip, hmem])
    apply (applySkip_alike w s hmem).bind
    rintro s' fresh ⟨hstaged, hkeeps⟩
    refine .ret ⟨rfl, hstaged, hkeeps.persisted, hkeeps.state, ?_⟩
    exact congrArg (insert step) hkeeps.completed
  · apply (handler_alike w s data hp hf).bind
    rintro ⟨s', verdict⟩ ⟨fresh, verdict'⟩ ⟨rfl, hstaged, hkeeps⟩
    cases verdict with
    | accepted =>
      refine .ret ⟨rfl, hstaged, hkeeps.persisted, hkeeps.state, ?_⟩
      exact congrArg (insert step) hkeeps.completed
    | rejected reason => exact .ret ⟨rfl, hstaged, hkeeps.persisted, hkeeps.state, hkeeps.completed⟩
    | raised => exact .ret ⟨rfl, hstaged, hkeeps.persisted, hkeeps.state, hkeeps.completed⟩

variable {C : Run (Session × StepResult) → Prop}

theorem submit_rule {w : Wizard} {s : Session} {name : String}
    (hret : ∀ r : StepResult, r.ok = false → C (pure (s, r)))
    (hstep : ∀ step data skip, step.name = name → C (submitStep w s step data skip)) (data : Option Data) :
    C (submit w s name data) := by
  unfold submit
  split
  · exact hret _ rfl
  · exact hret _ rfl
  · rename_i step fields hfind
    have hname : step.name = name := by simpa using List.find?_some hfind
    split
    · exact hstep step fields false hname
    · exact hstep step fields _ hname
    · exact hret _ rfl

theorem submit_alike (w : Wizard) (s : Session) {name : String} {step : Step}
    (hname : (stepOrder.find? fun step => step.name == name) = some step) (hp : step ≠ .persist) (hf : step ≠ .finish)
    (data : Option Data) : Prog.Alike Op.Asks (Submitted s step) (submit w s name data) (submit w {} name data) := by
  unfold submit
  rw [hname]
  cases data with
  | none => exact .ret ⟨rfl, rfl, rfl, rfl, rfl⟩
  | some fields =>
    dsimp only
    split
    · exact submitStep_alike w s fields false hp hf
    · exact submitStep_alike w s fields _ hp hf
    · exact .ret ⟨rfl, rfl, rfl, rfl, rfl⟩

theorem submitStep_rule {w : Wizard} {s : Session} {step : Step}
    (hstep : step = .persist ∨ step = .finish) (data : Data) (skip : Bool)
    (hret : ∀ r : StepResult, r.ok = false → C (pure (s, r)))
    (hhandled : (step = .persist → persistPrerequisites ⊆ s.completed) → (step = .finish → s.persisted = true) →
      C (do
        let (s', verdict) ← handler w s data step
        match verdict with
        | .accepted => pure (complete { s' with skipped := s'.skipped.erase step } step)
        | .rejected reason => pure (s', ⟨false, reason, step.name, none⟩)
        | .raised => pure (s', ⟨false, "step failed", step.name, none⟩))) :
    C (submitStep w s step data skip) := by
  unfold submitStep
  split_ifs with hskip hready hpersisted htaken
  · exact hret _ rfl
  · exact hret _ rfl
  · exact hret _ rfl
  · have hmem : step ∉ skippableSteps := by rcases hstep with rfl | rfl <;> decide
    exact absurd (by simp [htaken, hmem]) hskip
  · apply hhandled
    · intro h
      by_contra hne
      exact hready ⟨h, hne⟩
    · intro h
      by_contra hne
      exact hpersisted ⟨h, Bool.not_eq_true _ ▸ hne⟩

theorem Step.name_injective : Function.Injective Step.name := by
  intro a b h
  cases a <;> cases b <;> first | rfl | exact absurd h (by decide)

end PiBuddyCam.Setup
