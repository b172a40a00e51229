import PiBuddyCam.SetupAnswers

/-! The documents that a finished setup leaves. They are those of the moment of the last
persist; what was answered since is staged, joins the network with the device, and is not
written. -/
namespace PiBuddyCam.Setup

section Runs

variable {w : Wizard} {p : Session × Disk} {t : Turn}

theorem turn_completed (h : .wifi ∈ p.1.completed) : .wifi ∈ (turn w p t).2.1.completed := by
  by_cases hsub : ∃ step, t.input.submits = some step ∧ step ≠ .persist ∧ step ≠ .finish
  · obtain ⟨step, hsub, hp, hf⟩ := hsub
    rw [(turn_submitted hsub hp hf).2.2]
    split_ifs
    · exact Finset.mem_insert_of_mem h
    · exact h
  · refine (turn_untold fun step hstep => ?_).2.mpr h
    by_contra hne
    rw [not_or] at hne
    exact hsub ⟨step, hstep, hne⟩

theorem serve_closing {s : Session} {input : Input} (h : input.submits ≠ some .persist) :
    (serve w s input).Within (Op.Closing s) := by
  cases input with
  | setStep name =>
    rw [serve]
    split <;> trivial
  | scan =>
    apply ((scanNetworks_alike w s).yields.within.mono fun _ ho => ho.closing s).bind
    rintro ⟨s', verdict⟩
    cases verdict <;> trivial
  | submit name data =>
    suffices hsubmit : (submit w s name data).Within (Op.Closing s) from hsubmit.bind fun _ => trivial
    cases hfind : stepOrder.find? fun step => step.name == name with
    | none =>
      unfold submit
      rw [hfind]
      trivial
    | some step =>
      have hp : step ≠ .persist := fun hp => h (hp ▸ hfind)
      by_cases hf : step = .finish
      · subst hf
        apply submit_rule (C := fun p => p.Within (Op.Closing s))
        · exact fun _ _ => trivial
        intro step' fields skip hname
        have hsame : Step.finish.name = name := by simpa using List.find?_some hfind
        obtain rfl : step' = .finish := Step.name_injective (hname.trans hsame.symm)
        apply submitStep_rule (C := fun p => p.Within (Op.Closing s)) (Or.inr rfl)
        · exact fun _ _ => trivial
        intro _ _
        have hfinish := (finish_yields w s (fields.get "camera_running")).within
        apply (hfinish.bind _).bind
        · rintro ⟨s', verdict⟩
          cases verdict <;> trivial
        · rintro ⟨s', r⟩
          cases r <;> trivial
      · exact (submit_alike w s hfind hp hf data).yields.within.mono fun _ ho => ho.closing s
  | finish cameraRunning => exact (finish_yields w s cameraRunning).within

theorem Disk.step_documents {s : Session} {o : Op} (ho : o.Closing s) (d : Disk) (c : Choice) :
    (appliance.step d o c).2.device = d.device ∧ (appliance.step d o c).2.secrets = d.secrets := by
  cases o with
  | saveDevice device => exact ho.elim
  | saveSecrets secrets => exact ho.elim
  | saveState file =>
    simp only [appliance, Disk.step]
    split_ifs <;> exact ⟨rfl, rfl⟩
  | _ => exact ⟨rfl, rfl⟩

theorem turn_documents (h : t.input.submits ≠ some .persist) :
    (turn w p t).2.2.device = p.2.device ∧ (turn w p t).2.2.secrets = p.2.secrets := by
  have hsafe := (serve_closing (w := w) (s := p.1) h).safe (m := appliance) (A := fun _ => True)
    (J := fun d => d.device = p.2.device ∧ d.secrets = p.2.secrets) ⟨rfl, rfl⟩ ?_
  · exact hsafe.run fun _ => trivial
  · rintro d o c ho - ⟨hdevice, hsecrets⟩
    have hstep := Disk.step_documents ho d c
    exact ⟨hstep.1.trans hdevice, hstep.2.trans hsecrets⟩

def Disk.Holds (d : Disk) (documents : Device × Secrets) : Prop :=
  d.device = some documents.1 ∧ d.secrets = some documents.2

theorem stepPersist_holds (w : Wizard) (s : Session) (d : Disk) :
    (stepPersist w s).Safe appliance (fun _ => True) (fun _ => True)
      (fun out d' => out.2 = .accepted → d'.Holds (buildDocuments w s)) d := by
  unfold stepPersist
  dsimp only
  split
  iterate 4
    intro h
    cases h
  intro c _
  refine ⟨trivial, ?_⟩
  cases hdevice : c.written with
  | false =>
    simp only [appliance, Disk.step, hdevice]
    intro h
    cases h
  | true =>
    simp only [appliance, Disk.step, hdevice, if_true]
    intro c' _
    refine ⟨trivial, ?_⟩
    cases hsecrets : c'.written with
    | false =>
      simp only [Disk.step, hsecrets]
      intro h
      cases h
    | true =>
      simp only [Disk.step, hsecrets, if_true]
      -- both are written, and the walk to `unclaimed` leaves them alone
      have hwalk := Prog.Within.safe (m := appliance) (A := fun _ => True)
        (J := fun d' => d'.Holds (buildDocuments w s))
        (walkFromDisk_within (w := w) .unclaimed (wizardFacts { s with
          device := some (buildDocuments w s).1, secrets := some (buildDocuments w s).2, persisted := true } false))
        (s := ⟨d.state, some (buildDocuments w s).1, some (buildDocuments w s).2⟩) ⟨rfl, rfl⟩ ?_
      · apply Prog.Safe.bind (hwalk.mono (fun _ _ => trivial) fun _ _ h => h)
        exact fun _ _ hd _ => hd
      · rintro d' o c ho - ⟨hd, hd'⟩
        have hstep := Disk.step_documents (ho.closing s) d' c
        exact ⟨hstep.1.trans hd, hstep.2.trans hd'⟩

theorem turn_persist (h : t.input.submits = some .persist) (hok : Succeeds (turn w p t).1) :
    (turn w p t).2.2.Holds (p.1.staged.documents w) ∧ .wifi ∈ p.1.completed := by
  obtain ⟨input, answers⟩ := t
  cases input with
  | submit name data =>
    have hname : Step.persist.name = name := by simpa using List.find?_some h
    have hsubmit : (submit w p.1 name data).Safe appliance (fun _ => True) (fun _ => True)
        (fun out d' => out.2.ok = true → d'.Holds (buildDocuments w p.1) ∧ .wifi ∈ p.1.completed) p.2 := by
      apply submit_rule (C := fun q => q.Safe _ _ _ _ p.2)
      · exact fun r hr hok => absurd (hr.symm.trans hok) Bool.false_ne_true
      intro step fields skip hstep
      obtain rfl : step = .persist := Step.name_injective (hstep.trans hname.symm)
      apply submitStep_rule (C := fun q => q.Safe _ _ _ _ p.2) (Or.inl rfl)
      · exact fun r hr hok => absurd (hr.symm.trans hok) Bool.false_ne_true
      intro hready _
      have hwifi : .wifi ∈ p.1.completed := hready rfl (by decide)
      apply (stepPersist_holds w p.1 p.2).bind
      rintro ⟨s', verdict⟩ d' hholds
      cases verdict with
      | accepted => exact fun _ => ⟨hholds rfl, hwifi⟩
      | rejected reason => exact nofun
      | raised => exact nofun
    have hserve : (serve w p.1 (.submit name data)).Safe appliance (fun _ => True) (fun _ => True)
        (fun out d' => Succeeds out.2 → d'.Holds (buildDocuments w p.1) ∧ .wifi ∈ p.1.completed) p.2 := by
      apply hsubmit.bind
      rintro out d' hout ⟨r, hr, hrok⟩
      exact hout (Option.some.inj hr ▸ hrok)
    exact hserve.run (fun _ => trivial) hok
  | _ => exact nomatch h

theorem after_documents (w : Wizard) (d : Disk) (turns : List Turn) {later : List Turn}
    {documents : Device × Secrets} (hlater : ∀ t ∈ later, t.input.submits ≠ some .persist)
    (hdocs : (after w d turns).2.Holds documents) (hwifi : .wifi ∈ (after w d turns).1.completed) :
    (after w d (turns ++ later)).2.Holds documents ∧ .wifi ∈ (after w d (turns ++ later)).1.completed := by
  induction later using List.reverseRecOn with
  | nil =>
    rw [List.append_nil]
    exact ⟨hdocs, hwifi⟩
  | append_singleton later t ih =>
    obtain ⟨hd, hw⟩ := ih fun t' ht' => hlater t' (List.mem_append_left _ ht')
    have hstep := turn_documents (w := w) (p := after w d (turns ++ later)) (hlater t (by simp))
    rw [← List.append_assoc, after_append]
    exact ⟨⟨hstep.1.trans hd.1, hstep.2.trans hd.2⟩, turn_completed hw⟩

end Runs

theorem Input.Finishes.submits {input : Input} (h : input.Finishes) :
    ∀ step, input.submits = some step → step = .finish := by
  intro step hstep
  cases input with
  | setStep name => exact h.elim
  | scan => exact h.elim
  | submit name data =>
    have hname : step.name = name := by simpa using List.find?_some hstep
    exact Step.name_injective (hname.trans h)
  | finish cameraRunning => exact nomatch hstep

theorem nonEmpty_getD (text : String) : (nonEmpty text).getD "" = text := by
  unfold nonEmpty
  split_ifs with h
  · exact h.symm
  · rfl

/-- After a sequence of calls that ends with a finish, in which the last persist submitted was
accepted and no imager answer took back a hostname: the documents on the disk are those of the
last accepted answers and the key that the network is joined with is the one written, exactly
when the answers accepted since that persist leave the implied documents as they were. -/
theorem finished_documents_iff (w : Wizard) (d : Disk) (before : List Turn) (save : Turn) (later : List Turn)
    (last : Turn) (hnames : ∀ earlier t rest, before ++ save :: later = earlier ++ t :: rest →
      ¬ t.input.Withdraws (after w d earlier).1)
    (hsave : save.input.submits = some .persist) (hsaved : Succeeds (turn w (after w d before) save).1)
    (hlater : ∀ t ∈ later, t.input.submits ≠ some .persist) (hlast : last.input.Finishes) :
    ((after w d (before ++ save :: later ++ [last])).2.Holds (implied w d (before ++ save :: later ++ [last])) ∧
      ∀ ssid psk r, ⟨.activateStation ssid psk, r⟩ ∈ turnLog w (after w d (before ++ save :: later)) last →
        (after w d (before ++ save :: later ++ [last])).2.secrets.map (fun x => x.wifiPsk.getD "") = some psk) ↔
      implied w d before = implied w d (before ++ save :: later) := by
  generalize hall : before ++ save :: later = all at hnames ⊢
  -- what is on the disk was staged before the persist
  have hbefore : Told (after w d before).1 (lastAnswers w d before) :=
    after_told w d before fun earlier t rest h => hnames earlier t (rest ++ save :: later) (by rw [← hall, h]; simp)
  obtain ⟨hwritten, hwifi⟩ := turn_persist hsave hsaved
  rw [hbefore.staged hwifi] at hwritten
  have hsplit : all = (before ++ [save]) ++ later := by simp [← hall]
  rw [← after_append] at hwritten
  have hanswered : .wifi ∈ (after w d (before ++ [save])).1.completed := by
    rw [after_append]
    exact turn_completed hwifi
  obtain ⟨hkept, hwifi'⟩ := after_documents w d (before ++ [save]) hlater hwritten hanswered
  rw [← hsplit] at hkept hwifi'
  -- and the finish writes nothing
  have hfinish : last.input.submits ≠ some .persist := fun h => nomatch hlast.submits _ h
  have hdisk := turn_documents (w := w) (p := after w d all) hfinish
  have hend : (after w d (all ++ [last])).2.Holds (implied w d before) := by
    rw [after_append]
    exact ⟨hdisk.1.trans hkept.1, hdisk.2.trans hkept.2⟩
  have himplied : implied w d (all ++ [last]) = implied w d all := by
    unfold implied
    rw [lastAnswers_append, note_staged fun step hstep => Or.inr (hlast.submits step hstep)]
  rw [himplied]
  constructor
  · rintro ⟨⟨hdevice, hsecrets⟩, -⟩
    exact Prod.ext (Option.some.inj (hend.1.symm.trans hdevice)) (Option.some.inj (hend.2.symm.trans hsecrets))
  · intro hsame
    refine ⟨hsame ▸ hend, fun ssid psk r hjoin => ?_⟩
    have htold := after_told w d all hnames
    obtain ⟨-, hpsk⟩ : ssid = _ ∧ psk = (after w d all).1.wifi.psk.getD "" :=
      turnLog_within (serve_closing hfinish) _ hjoin
    have hstaged : psk = (lastAnswers w d all).staged.wifi.psk.getD "" := by
      rw [hpsk, ← htold.staged hwifi']
      rfl
    rw [hend.2, hsame, Option.map_some, hstaged]
    exact congrArg some (nonEmpty_getD _)

def stationWizard : Wizard := { plainWizard with hasActivateStation := true }

def wifiTurn (psk : String) : Turn :=
  workingTurn (.submit "wifi" (some [("ssid", .str "lab"), ("psk", .str psk)]))

def passwordTurn : Turn :=
  workingTurn (.submit "admin_password" (some [("password", .str "12345678"), ("confirm", .str "12345678")]))

def persistTurn : Turn := workingTurn (.submit "persist" (some []))

/-- Answers, then a persist, then a finish. -/
theorem documents_of_persisted_answers :
    Succeeds (turn stationWizard (after stationWizard {}
      [wifiTurn "12345678", passwordTurn, persistTurn]) finishTurn).1 ∧
    (after stationWizard {} [wifiTurn "12345678", passwordTurn, persistTurn, finishTurn]).2.Holds
      (implied stationWizard {} [wifiTurn "12345678", passwordTurn, persistTurn, finishTurn]) := by
  refine ⟨Option.map_eq_some_iff.mp (by decide +kernel), ?_⟩
  have hiff := finished_documents_iff stationWizard {} [wifiTurn "12345678", passwordTurn] persistTurn [] finishTurn ?_
    (by decide +kernel) (Option.map_eq_some_iff.mp (by decide +kernel)) (List.forall_mem_nil _) rfl
  · exact (hiff.mpr rfl).1
  · intro earlier t rest h
    have ht : t ∈ [wifiTurn "12345678", passwordTurn] ++ [persistTurn] := by
      rw [h]
      exact List.mem_append_right earlier List.mem_cons_self
    simp only [List.cons_append, List.nil_append, List.mem_cons, List.not_mem_nil, or_false] at ht
    rcases ht with rfl | rfl | rfl
    all_goals
      rintro ⟨hname, -⟩
      exact absurd hname (by decide)

def keyUsed (e : Entry) : Option String :=
  match e.1 with
  | .activateStation _ psk => some psk
  | _ => none

/-- A key corrected after the persist joins the network and is not the one on the disk. -/
theorem key_answered_after_persist_unsaved :
    Succeeds (turn stationWizard (after stationWizard {}
      [wifiTurn "12345678", passwordTurn, persistTurn, wifiTurn "87654321"]) finishTurn).1 ∧
    (implied stationWizard {}
      [wifiTurn "12345678", passwordTurn, persistTurn, wifiTurn "87654321", finishTurn]).2.wifiPsk = some "87654321" ∧
    (turnLog stationWizard (after stationWizard {}
      [wifiTurn "12345678", passwordTurn, persistTurn, wifiTurn "87654321"]) finishTurn).filterMap keyUsed =
        ["87654321"] ∧
    (after stationWizard {} [wifiTurn "12345678", passwordTurn, persistTurn, wifiTurn "87654321",
      finishTurn]).2.secrets.bind Secrets.wifiPsk = some "12345678" :=
  ⟨Option.map_eq_some_iff.mp (by decide +kernel), by decide +kernel, by decide +kernel, by decide +kernel⟩

end PiBuddyCam.Setup
