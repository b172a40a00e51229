import PiBuddyCam.SetupTrace

/-! The last accepted answer of every step, and that a session has staged them. The imager
step is apart: its answer fills in what is missing, and a hostname it leaves out stays. -/
namespace PiBuddyCam.Setup

def Input.submits : Input → Option Step
  | .submit name _ => stepOrder.find? fun step => step.name == name
  | _ => none

abbrev Answers := Step → Option Staged

def note (w : Wizard) (p : Session × Disk) (a : Answers) (t : Turn) : Answers :=
  match t.input.submits with
  | some step =>
    if (turn w p t).1.any StepResult.ok then Function.update a step (some (turn w ({}, p.2) t).2.1.staged) else a
  | none => a

def lastAnswers (w : Wizard) (d : Disk) (turns : List Turn) : Answers :=
  (turns.foldl (fun q t => ((turn w q.1 t).2, note w q.1 q.2 t)) ((({}, d) : Session × Disk), fun _ => none)).2

/-- What the answers stage together, each step its own part. -/
def Answers.staged (a : Answers) : Staged where
  wifi := ((a .wifi).map Staged.wifi).getD {}
  fingerprint := ((a .fingerprint).map Staged.fingerprint).getD ""
  hostname := ((a .imagerPrefill).map Staged.hostname).getD ""
  mqtt := ((a .mqtt).map Staged.mqtt).getD {}
  token := ((a .prusaToken).map Staged.token).getD ""
  adminHash := ((a .adminPassword).map Staged.adminHash).getD ""

def implied (w : Wizard) (d : Disk) (turns : List Turn) : Device × Secrets :=
  (lastAnswers w d turns).staged.documents w

theorem lastAnswers_append (w : Wizard) (d : Disk) (turns : List Turn) (t : Turn) :
    lastAnswers w d (turns ++ [t]) = note w (after w d turns) (lastAnswers w d turns) t := by
  have hafter (turns : List Turn) (q : (Session × Disk) × Answers) :
      (turns.foldl (fun q t => ((turn w q.1 t).2, note w q.1 q.2 t)) q).1 =
        turns.foldl (fun p t => (turn w p t).2) q.1 := by
    induction turns generalizing q with
    | nil => rfl
    | cons t turns ih => exact ih _
  rw [lastAnswers, List.foldl_append, List.foldl_cons, List.foldl_nil, hafter]
  rfl

section Turn

variable {w : Wizard} {s : Session}

theorem stepPersist_yields (w : Wizard) (s : Session) :
    (stepPersist w s).Yields (fun _ => True) fun out => out.1.staged = s.staged ∧ out.1.completed = s.completed := by
  unfold stepPersist
  dsimp only
  split
  iterate 4 exact ⟨rfl, rfl⟩
  refine ⟨trivial, fun (r : Bool) => ?_⟩
  cases r with
  | false => exact ⟨rfl, rfl⟩
  | true =>
    refine ⟨trivial, fun (r : Bool) => ?_⟩
    cases r with
    | false => exact ⟨rfl, rfl⟩
    | true =>
      apply ((walkFromDisk_within _ _).mono fun _ _ => trivial).yields.bind
      exact fun _ _ => ⟨rfl, rfl⟩

def Untold (s s' : Session) : Prop :=
  s'.staged = s.staged ∧ (.wifi ∈ s'.completed ↔ .wifi ∈ s.completed)

theorem submitStep_untold {step : Step} (hstep : step = .persist ∨ step = .finish) (data : Data) (skip : Bool) :
    (submitStep w s step data skip).Yields (fun _ => True) fun out => Untold s out.1 := by
  have hhandler : (handler w s data step).Yields (fun _ => True) fun out => Untold s out.1 := by
    rcases hstep with rfl | rfl
    · apply (stepPersist_yields w s).mono (fun _ ho => ho)
      rintro out ⟨hstaged, hcompleted⟩
      exact ⟨hstaged, by rw [hcompleted]⟩
    · apply ((finish_yields w s (data.get "camera_running")).mono (fun _ _ => trivial) fun _ h => h).bind
      rintro ⟨s', r⟩ ⟨state, finished, rfl⟩
      cases r <;> exact ⟨rfl, Iff.rfl⟩
  apply submitStep_rule (C := fun p => p.Yields _ _) hstep
  · exact fun _ _ => ⟨rfl, Iff.rfl⟩
  · intro _ _
    apply hhandler.bind
    rintro ⟨s', verdict⟩ ⟨hstaged, hcompleted⟩
    cases verdict with
    | accepted =>
      have hne : Step.wifi ≠ step := by rcases hstep with rfl | rfl <;> decide
      refine ⟨hstaged, Iff.trans ?_ hcompleted⟩
      exact Finset.mem_insert.trans (or_iff_right hne)
    | rejected reason => exact ⟨hstaged, hcompleted⟩
    | raised => exact ⟨hstaged, hcompleted⟩

theorem stepWifi_full (w : Wizard) (s : Session) (data : Data) :
    (stepWifi w s data).Yields (fun _ => True)
      fun out => out.2 = .accepted → ∃ ssid psk, out.1.staged.wifi = ⟨some ssid, some psk⟩ := by
  have hrecord (s : Session) : (recordWifi s data).2 = .accepted →
      ∃ ssid psk, (recordWifi s data).1.staged.wifi = ⟨some ssid, some psk⟩ := by
    unfold recordWifi
    split
    · split_ifs
      · exact nofun
      · exact nofun
      · exact nofun
      · exact fun _ => ⟨_, _, rfl⟩
    · exact nofun
  unfold stepWifi
  split
  · apply ((scanNetworks_alike w s).yields.mono (fun _ _ => trivial) fun _ h => h).bind
    rintro ⟨s', verdict⟩ _
    cases verdict with
    | accepted => exact hrecord s'
    | rejected reason => exact nofun
    | raised => exact nofun
  · exact hrecord s

theorem stepImagerPrefill_hostname (data : Data) (h : (stepImagerPrefill {} data).2 = .accepted) :
    (stepImagerPrefill {} data).1.staged.hostname = (data.get "hostname").text := by
  unfold stepImagerPrefill at h ⊢
  split at h
  · exact nomatch h
  · by_cases hhost : (data.get "hostname").text = "" <;> simp [Session.staged, hhost]

theorem submit_handled {name : String} {step : Step} {Q : Staged → Prop} {data : Option Data}
    (hname : (stepOrder.find? fun step => step.name == name) = some step) (hp : step ≠ .persist) (hf : step ≠ .finish)
    (hskip : step ∉ skippableSteps) (hhandler : ∀ fields, data = some fields →
      (handler w s fields step).Yields (fun _ => True) fun out => out.2 = .accepted → Q out.1.staged) :
    (submit w s name data).Yields (fun _ => True) fun out => out.2.ok = true → Q out.1.staged := by
  unfold submit
  rw [hname]
  cases data with
  | none => exact nofun
  | some fields =>
    have hsubmit (skip : Bool) :
        (submitStep w s step fields skip).Yields (fun _ => True) fun out => out.2.ok = true → Q out.1.staged := by
      unfold submitStep
      simp only [hp, hf, false_and, if_false]
      split_ifs with hrefused htaken
      · exact nofun
      · exact absurd (by simp [htaken, hskip]) hrefused
      · apply (hhandler fields rfl).bind
        rintro ⟨s', verdict⟩ hs'
        cases verdict with
        | accepted => exact fun _ => hs' rfl
        | rejected reason => exact nofun
        | raised => exact nofun
    dsimp only
    split
    · exact hsubmit false
    · exact hsubmit _
    · exact nofun

end Turn

section Turns

variable {w : Wizard} {p : Session × Disk} {t : Turn} {Q : Session × Option StepResult → Prop}

theorem turn_yields {P : Op → Prop}
    (h : (serve w p.1 t.input).Yields P Q) : Q ((turn w p t).2.1, (turn w p t).1) := by
  have hsafe := h.safe (m := appliance) (A := fun _ => True) (J := fun _ => True) (s := p.2) trivial
    fun _ _ _ _ _ _ => trivial
  exact (hsafe.run fun _ => trivial).1

theorem serve_submit {name : String} {data : Option Data} {P : Op → Prop}
    (h : (submit w p.1 name data).Yields P fun out => Q (out.1, some out.2)) :
    (serve w p.1 (.submit name data)).Yields P Q := h.bind fun _ h => h

theorem turn_untold (h : ∀ step, t.input.submits = some step → step = .persist ∨ step = .finish) :
    Untold p.1 (turn w p t).2.1 := by
  apply turn_yields (P := fun _ => True) (Q := fun out => Untold p.1 out.1)
  obtain ⟨input, answers⟩ := t
  cases input with
  | setStep name =>
    rw [serve]
    split <;> exact ⟨rfl, Iff.rfl⟩
  | scan =>
    apply ((scanNetworks_alike w p.1).yields.mono (fun _ _ => trivial) fun _ h => h).bind
    rintro ⟨s', verdict⟩ ⟨_, _, hstaged, hkeeps⟩
    have huntold : Untold p.1 s' := ⟨hstaged, by rw [hkeeps.completed]⟩
    cases verdict <;> exact huntold
  | submit name data =>
    apply serve_submit
    cases hfind : stepOrder.find? fun step => step.name == name with
    | none =>
      unfold submit
      rw [hfind]
      exact ⟨rfl, Iff.rfl⟩
    | some step =>
      apply submit_rule (C := fun q => q.Yields _ _)
      · exact fun _ _ => ⟨rfl, Iff.rfl⟩
      · intro step' fields skip hname
        have hsame : step.name = name := by simpa using List.find?_some hfind
        obtain rfl : step' = step := Step.name_injective (hname.trans hsame.symm)
        exact submitStep_untold (h step' hfind) fields skip
  | finish cameraRunning =>
    apply (finish_yields w p.1 cameraRunning).mono (fun _ _ => trivial)
    rintro out ⟨state, finished, hout⟩
    rw [hout]
    exact ⟨rfl, Iff.rfl⟩

theorem turn_submitted {step : Step} (h : t.input.submits = some step) (hp : step ≠ .persist) (hf : step ≠ .finish) :
    (turn w p t).1.any StepResult.ok = (turn w ({}, p.2) t).1.any StepResult.ok ∧
    (turn w p t).2.1.staged = (if (turn w p t).1.any StepResult.ok then
      p.1.staged.take (turn w ({}, p.2) t).2.1.staged step else p.1.staged) ∧
    (turn w p t).2.1.completed = (if (turn w p t).1.any StepResult.ok then insert step p.1.completed
      else p.1.completed) := by
  obtain ⟨input, answers⟩ := t
  cases input with
  | submit name data =>
    have halike := (submit_alike w p.1 h hp hf data).bind (S := fun out fresh =>
      out.2.any StepResult.ok = fresh.2.any StepResult.ok ∧
      out.1.staged = (if out.2.any StepResult.ok then p.1.staged.take fresh.1.staged step else p.1.staged) ∧
      out.1.completed = (if out.2.any StepResult.ok then insert step p.1.completed else p.1.completed))
      (f := fun out => pure (out.1, some out.2)) (g := fun out => pure (out.1, some out.2))
      fun out fresh hout => .ret ⟨hout.verdict, hout.staged, hout.completed⟩
    exact (halike.run appliance answers p.2).1
  | _ => exact nomatch h

theorem turn_wifi_full (h : t.input.submits = some .wifi) (hok : (turn w p t).1.any StepResult.ok = true) :
    ∃ ssid psk, (turn w p t).2.1.staged.wifi = ⟨some ssid, some psk⟩ := by
  revert hok
  apply turn_yields (P := fun _ => True) (Q := fun out => out.2.any StepResult.ok = true →
    ∃ ssid psk, out.1.staged.wifi = ⟨some ssid, some psk⟩)
  obtain ⟨input, answers⟩ := t
  cases input with
  | submit name data =>
    apply serve_submit
    apply submit_handled (Q := fun st => ∃ ssid psk, st.wifi = ⟨some ssid, some psk⟩) h (by decide) (by decide)
      (by decide)
    exact fun fields _ => stepWifi_full w p.1 fields
  | _ => exact nomatch h

/-- An answer of the imager step that leaves out the hostname after one was given. -/
def Input.Withdraws (s : Session) : Input → Prop
  | .submit name (some data) =>
    name = Step.imagerPrefill.name ∧ (data.get "hostname").text = "" ∧ s.hostname ≠ ""
  | _ => False

theorem turn_hostname {d : Disk} (h : t.input.submits = some .imagerPrefill)
    (hok : (turn w ({}, d) t).1.any StepResult.ok = true) {s : Session} (hs : ¬ t.input.Withdraws s) :
    (turn w ({}, d) t).2.1.staged.hostname = "" → s.hostname = "" := by
  revert hok
  apply turn_yields (p := ({}, d)) (P := fun _ => True) (Q := fun out => out.2.any StepResult.ok = true →
    out.1.staged.hostname = "" → s.hostname = "")
  obtain ⟨input, answers⟩ := t
  cases input with
  | submit name data =>
    apply serve_submit (p := ({}, d))
    apply submit_handled (Q := fun st => st.hostname = "" → s.hostname = "") h (by decide) (by decide) (by decide)
    rintro fields rfl haccepted hempty
    have hname : Step.imagerPrefill.name = name := by simpa using List.find?_some h
    by_contra hne
    rw [stepImagerPrefill_hostname fields haccepted] at hempty
    exact hs ⟨hname.symm, hempty, hne⟩
  | _ => exact nomatch h

end Turns

structure Told (s : Session) (a : Answers) : Prop where
  /-- Before the first Wi-Fi answer the imager's may stand in its place. -/
  rest : s.staged = { a.staged with wifi := s.staged.wifi }
  wifi : .wifi ∈ s.completed → s.staged.wifi = a.staged.wifi ∧ ∃ ssid psk, s.staged.wifi = ⟨some ssid, some psk⟩

theorem Told.staged {s : Session} {a : Answers} (h : Told s a) (hmem : .wifi ∈ s.completed) :
    s.staged = a.staged := by
  rw [h.rest, (h.wifi hmem).1]

/-- Taken together, the answers are taken one by one, but that the last imager answer alone
decides about the hostname. -/
theorem Answers.staged_update (a : Answers) (fresh : Staged) {step : Step} (h : step ≠ .imagerPrefill) :
    Answers.staged (Function.update a step (some fresh)) = a.staged.take fresh step := by
  cases step with
  | imagerPrefill => exact absurd rfl h
  | _ => rfl

theorem Told.of_untold {s s' : Session} {a a' : Answers} (h : Told s a) (hs : Untold s s')
    (ha : a'.staged = a.staged) : Told s' a' := by
  obtain ⟨hstaged, hcompleted⟩ := hs
  constructor
  · rw [hstaged, ha]
    exact h.rest
  · intro hmem
    rw [hstaged, ha]
    exact h.wifi (hcompleted.mp hmem)

theorem Told.take {s s' : Session} {a : Answers} {fresh : Staged} {step : Step} (h : Told s a)
    (hstaged : s'.staged = s.staged.take fresh step) (hcompleted : s'.completed = insert step s.completed)
    (hwifi : step = .wifi → ∃ ssid psk, fresh.wifi = ⟨some ssid, some psk⟩)
    (hhost : step = .imagerPrefill → fresh.hostname = "" → s.hostname = "") :
    Told s' (Function.update a step (some fresh)) := by
  have hbefore (hne : .wifi ≠ step) (hmem : .wifi ∈ s'.completed) : .wifi ∈ s.completed := by
    rw [hcompleted] at hmem
    exact Finset.mem_of_mem_insert_of_ne hmem hne
  by_cases himager : step = .imagerPrefill
  · subst himager
    have hname : s'.staged.hostname = fresh.hostname := by
      rw [hstaged]
      change (if fresh.hostname ≠ "" then fresh.hostname else s.hostname) = fresh.hostname
      split_ifs with hgiven
      · rfl
      · rw [not_not] at hgiven
        rw [hgiven, hhost rfl hgiven]
    constructor
    · calc
        s'.staged = { s.staged with hostname := s'.staged.hostname, wifi := s'.staged.wifi } := by rw [hstaged]; rfl
        _ = { a.staged with hostname := fresh.hostname, wifi := s'.staged.wifi } := by rw [hname, h.rest]
    · -- a network that was answered is not filled in again
      intro hmem
      obtain ⟨hsame, ssid, psk, hfull⟩ := h.wifi (hbefore (by decide) hmem)
      have hkept : s'.staged.wifi = s.staged.wifi := by
        rw [hstaged, hfull]
        simp only [Staged.take, hfull]
        rfl
      rw [hkept]
      exact ⟨hsame, ssid, psk, hfull⟩
  have ha := a.staged_update fresh himager
  by_cases hstep : step = .wifi
  · subst hstep
    constructor
    · rw [ha, hstaged, h.rest]
      rfl
    · intro _
      rw [ha, hstaged]
      exact ⟨rfl, hwifi rfl⟩
  · have hkept (st : Staged) : (st.take fresh step).wifi = st.wifi := by
      cases step with
      | imagerPrefill => exact absurd rfl himager
      | wifi => exact absurd rfl hstep
      | _ => rfl
    constructor
    · rw [ha, hstaged, hkept, h.rest]
      cases step with
      | imagerPrefill => exact absurd rfl himager
      | wifi => exact absurd rfl hstep
      | _ => rfl
    · intro hmem
      rw [ha, hstaged, hkept, hkept]
      exact h.wifi (hbefore (Ne.symm hstep) hmem)

section Runs

variable {w : Wizard} {p : Session × Disk} {t : Turn} {a : Answers}

theorem note_staged (h : ∀ step, t.input.submits = some step → step = .persist ∨ step = .finish) :
    (note w p a t).staged = a.staged := by
  unfold note
  split
  · rename_i step hsub
    have hlast := h step hsub
    have hne : step ≠ .imagerPrefill := by rcases hlast with rfl | rfl <;> decide
    split_ifs
    · rw [a.staged_update _ hne]
      rcases hlast with rfl | rfl <;> rfl
    · rfl
  · rfl

theorem Told.turn (h : Told p.1 a) (hname : ¬ t.input.Withdraws p.1) :
    Told (turn w p t).2.1 (note w p a t) := by
  by_cases hlast : ∀ step, t.input.submits = some step → step = .persist ∨ step = .finish
  · exact h.of_untold (turn_untold hlast) (note_staged hlast)
  push Not at hlast
  obtain ⟨step, hsub, hp, hf⟩ := hlast
  obtain ⟨hok, hstaged, hcompleted⟩ := turn_submitted (w := w) (p := p) hsub hp hf
  rw [note, hsub]
  split_ifs with hr
  · rw [if_pos hr] at hstaged hcompleted
    rw [hok] at hr
    refine h.take hstaged hcompleted ?_ ?_
    · rintro rfl
      exact turn_wifi_full hsub hr
    · rintro rfl
      exact turn_hostname hsub hr hname
  · rw [if_neg hr] at hstaged hcompleted
    exact h.of_untold ⟨hstaged, by rw [hcompleted]⟩ rfl

theorem after_told (w : Wizard) (d : Disk) (turns : List Turn)
    (hnames : ∀ earlier t rest, turns = earlier ++ t :: rest → ¬ t.input.Withdraws (after w d earlier).1) :
    Told (after w d turns).1 (lastAnswers w d turns) := by
  induction turns using List.reverseRecOn with
  | nil => exact ⟨rfl, fun h => nomatch h⟩
  | append_singleton turns t ih =>
    rw [after_append, lastAnswers_append]
    apply Told.turn
    · refine ih fun earlier t' rest h => hnames earlier t' (rest ++ [t]) ?_
      rw [h, List.append_assoc, List.cons_append]
    · exact hnames turns t [] rfl

end Runs

end PiBuddyCam.Setup
