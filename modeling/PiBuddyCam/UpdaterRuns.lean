import PiBuddyCam.UpdaterHealth

/-! Sequences of updater runs, each of which may be cut by a power loss after any call. -/
namespace PiBuddyCam.Updater

attribute [local irreducible] writeState

/-- One start of the updater: a command, or `install_update` or `default_prune` alone. -/
inductive Command where
  | recover (pid : ℕ)
  | check (a : CheckCommand)
  | install (a : InstallCommand)
  | update (stopServices : Bool) (a : InstallArgs)
  | prune (kept : List String)

def Command.program (h : Host) : Command → Run Unit
  | .recover pid => do
    let _ ← recoverInterrupted pid
    pure ()
  | .check a => do
    let _ ← cliCheck h a
    pure ()
  | .install a => do
    let _ ← cliInstall h a
    pure ()
  | .update stopServices a => do
    let _ ← installUpdate (ownEffects a.pid stopServices) a
    pure ()
  | .prune kept => do
    let _ ← defaultPrune kept
    pure ()

def Command.after (h : Host) (cmd : Command) (cs : List Choice) (w : World) : Journal :=
  ((cmd.program h).exec journal cs ⟨w, []⟩).2

/-- The worlds that runs can lead to, with the log of each run. -/
inductive Reach (h : Host) (w0 : World) : World → List (List Entry) → Prop
  | start : Reach h w0 w0 []
  | run {w : World} {logs : List (List Entry)} (cmd : Command) (cs : List Choice) :
      Reach h w0 w logs → Reach h w0 (cmd.after h cs w).state (logs ++ [(cmd.after h cs w).log])

variable {base : Loc → Prop}

theorem cliCheck_reports (h : Host) (a : CheckCommand) :
    ∃ f, cliCheck h a = recoverInterrupted a.pid >>= f ∧ ∀ report, (f report).Within Op.Reports := by
  refine ⟨_, rfl, fun report => ?_⟩
  refine .bind (resolveVersions_within _) ?_
  rintro ⟨display, compare⟩
  split_ifs
  · exact .bind (writeState_within _ _ _) fun _ => trivial
  refine .opBind trivial ?_
  rintro (e | _)
  · trivial
  refine .opBind trivial ?_
  rintro (e | payload)
  · exact .bind (writeState_within _ _ _) fun _ => trivial
  refine .bind readBadVersions_within fun bad => ?_
  refine .bind ((checkForUpdate_within h _).mono fun _ => reports_of_checks) fun result => ?_
  exact .bind (writeCheckState_within _ _) fun _ => trivial

def Command.forced : Command → Bool
  | .install a => a.forceReinstall
  | .update _ a => a.forceReinstall
  | _ => false

/-- A command, from its parts: `I` is kept up to an install, and `J` at every cut. -/
theorem safe_command_of {A : Choice → Prop} {I J : Journal → Prop} (h : Host) (cmd : Command) {t : Journal} (ht : I t)
    (hreport : ∀ {α : Type} {p : Run α} {t : Journal}, p.Within Op.Reports → I t → p.Safe journal A J (fun _ => I) t)
    (hlast : ∀ {α : Type} {p : Run α} {t : Journal}, p.Within Op.Reports → J t → p.Keeps journal A J t)
    (hIJ : ∀ t, I t → J t) (hrecover : ∀ pid t, I t → (recoverInterrupted pid).Safe journal A J (fun _ => I) t)
    (hprune : ∀ kept, (defaultPrune kept).Keeps journal A J t)
    (hinstall : ∀ (a : InstallArgs) (stop : Bool) (t : Journal), a.forceReinstall = cmd.forced → I t →
      (installUpdate (ownEffects a.pid stop) a).Keeps journal A J t) :
    (cmd.program h).Keeps journal A J t := by
  cases cmd with
  | recover pid => exact .bind (hrecover pid t ht) fun _ _ hu => hIJ _ hu
  | prune kept => exact .bind (hprune kept) fun _ _ hu => hu
  | update stopServices a => exact .bind (hinstall a stopServices t rfl ht) fun _ _ hu => hu
  | check a =>
    obtain ⟨f, hf, hreports⟩ := cliCheck_reports h a
    refine .bind (Q := fun _ => J) ?_ fun _ _ hu => hu
    rw [hf]
    exact .bind (hrecover a.pid t ht) fun report _ hu => hlast (hreports report) (hIJ _ hu)
  | install a =>
    refine .bind (Q := fun _ => J) ?_ fun _ _ hu => hu
    apply Prog.Safe.bind (hrecover a.pid t ht)
    intro _ u hu
    apply Prog.Safe.bind (hreport (resolveVersions_within _) hu)
    rintro ⟨display, compare⟩ u hu
    apply Prog.Safe.bind (hreport (locateManifest_within _ _) hu)
    rintro (out | _) u hu
    · exact hIJ u hu
    apply Prog.Safe.bind (hreport (loadManifest_within h _) hu)
    rintro (out | manifest) u hu
    · exact hIJ u hu
    let args : InstallArgs :=
      { pid := a.pid, manifest, currentVersion := compare, currentImageVersion := a.currentImageVersion,
        forceReinstall := a.forceReinstall }
    apply Prog.Safe.bind (hinstall args true u rfl hu)
    intro result v hv
    exact hlast (Prog.Within.bind (writeState_within _ _ _) fun _ => trivial) hv

theorem safe_command {A : Choice → Prop} (h : Host) {t : Journal} (ht : Inv base t) (hset : Settled t.log)
    (hbase : base factoryApp) (cmd : Command) :
    (cmd.program h).Keeps journal A (Inv base) t := by
  have hcalm {α : Type} {p : Run α} {t : Journal} (ht : Inv base t ∧ Settled t.log)
      (hp : p.Keeps journal A (Calm t) t) :
      p.Safe journal A (Inv base) (fun _ u => Inv base u ∧ Settled u.log) t :=
    hp.mono (fun _ => ht.1.of_calm) fun _ _ hu => ⟨ht.1.of_calm hu, ht.2.of_calm hu⟩
  refine safe_command_of h cmd (I := fun t => Inv base t ∧ Settled t.log) ⟨ht, hset⟩ (fun hp ht => ?_)
    (fun hp ht => ?_) (fun _ h => h.1) (fun pid t ht => ?_) (fun kept => ?_) fun a stop t _ ht => ?_
  · exact hcalm ht (calm_of_within (Calm.refl _) (hp.mono fun _ => quiet_of_reports))
  · exact safe_quiet ht (hp.mono fun _ => quiet_of_reports)
  · exact hcalm ht (calm_recoverInterrupted ht.1.wellFormed pid)
  · exact (hcalm ⟨ht, hset⟩ (calm_defaultPrune ht.wellFormed kept)).post fun _ _ h => h.1
  · exact safe_installUpdate ht.1 ht.2 hbase stop a

def TrustedAfter (w0 : World) (logs : List (List Entry)) (l : Loc) : Prop :=
  l = factoryApp ∨ l = currentTarget w0.disk ∨ ∃ version, l = .entry version ∧ ∃ log ∈ logs, HealthPassed version log

theorem inv_after (h : Host) {w : World} (hw : WellFormed w.disk) (htrust : base (currentTarget w.disk))
    (hbase : base factoryApp) (cmd : Command) (cs : List Choice) : Inv base (cmd.after h cs w) := by
  have hinv : Inv base ⟨w, []⟩ := ⟨hw, fun _ => Or.inl htrust⟩
  have hset : Settled ([] : List Entry) := fun _ => Phase.noConfusion
  exact ((safe_command (A := fun _ => True) h hinv hset hbase cmd).exec hinv (fun _ _ => trivial)).1

theorem wellFormed_of_reach {h : Host} {w0 w : World} {logs : List (List Entry)} (h0 : WellFormed w0.disk)
    (hw : Reach h w0 w logs) : WellFormed w.disk := by
  induction hw with
  | start => exact h0
  | run cmd cs _ ih => exact (inv_after h ih trivial trivial cmd cs : Inv (fun _ => True) _).wellFormed

theorem trusted_of_reach {h : Host} {w0 w : World} {logs : List (List Entry)} (h0 : WellFormed w0.disk)
    (hw : Reach h w0 w logs) (hs : ∀ log ∈ logs, Settled log) : TrustedAfter w0 logs (currentTarget w.disk) := by
  induction hw with
  | start => exact Or.inr (Or.inl rfl)
  | @run w logs cmd cs hw ih =>
    have ih := ih fun log hlog => hs log (List.mem_append_left _ hlog)
    have hinv := inv_after h (wellFormed_of_reach h0 hw) ih (Or.inl rfl) cmd cs
    rcases hinv.trusted (hs _ (List.mem_append_right _ List.mem_cons_self)) with
      hold | ⟨version, hv, hpassed⟩
    · rcases hold with hf | hactive | ⟨version, hv, log, hlog, hpassed⟩
      · exact Or.inl hf
      · exact Or.inr (Or.inl hactive)
      · exact Or.inr (Or.inr ⟨version, hv, log, List.mem_append_left _ hlog, hpassed⟩)
    · exact Or.inr (Or.inr ⟨version, hv, _, List.mem_append_right _ List.mem_cons_self, hpassed⟩)

/-- The directory at a resolved place is in both trees, with the same files. -/
def SameDir (d d' : Disk) : Loc → Prop
  | .entry name => ∃ files, d.node name = some (.dir files) ∧ d'.node name = some (.dir files)
  | .outside path => path ∈ d.outsideDirs ∧ path ∈ d'.outsideDirs

def Command.CleansUp : Command → Prop
  | .recover _ | .prune _ => True
  | _ => False

theorem calm_cleanup (h : Host) {w : World} (hw : WellFormed w.disk) (cmd : Command) (hcmd : cmd.CleansUp)
    (cs : List Choice) : Calm ⟨w, []⟩ (cmd.after h cs w) := by
  have hcalm : (cmd.program h).Safe journal (fun _ => True) (Calm ⟨w, []⟩) (fun _ => Calm ⟨w, []⟩) ⟨w, []⟩ := by
    cases cmd with
    | recover pid => exact .bind (calm_recoverInterrupted hw pid) fun _ _ hu => hu
    | prune kept => exact .bind (calm_defaultPrune hw kept) fun _ _ hu => hu
    | _ => exact hcmd.elim
  exact (hcalm.exec (Calm.refl _) (fun _ _ => trivial)).1

theorem outsideDirs_of_factory {d : Disk} (h : d.isdir factoryApp = true) : "/opt/pibuddycam" ∈ d.outsideDirs := by
  simpa only [Disk.isdir, Disk.realpath, factoryApp, follow_outside, List.contains_iff_mem] using h

/-- In every world that runs can lead to, `current` is absent or leads to a directory,
and neither recovery nor pruning removes what `current` or `previous` leads to. -/
theorem current_resolves_and_cleanup_keeps_targets {h : Host} {w0 w : World} {logs : List (List Entry)}
    (h0 : WellFormed w0.disk) (hw : Reach h w0 w logs) :
    (w.disk.node currentLink = none ∨ w.disk.isdir (.entry currentLink) = true) ∧
      ∀ link, link = currentLink ∨ link = previousLink → w.disk.isdir (.entry link) = true →
        ∀ cmd : Command, cmd.CleansUp → ∀ cs,
          SameDir w.disk (cmd.after h cs w).state.disk (w.disk.realpath (.entry link)) := by
  have hwf := wellFormed_of_reach h0 hw
  constructor
  · rcases hwf.current with hnone | ⟨l, hlink, hl⟩
    · exact Or.inl hnone
    · exact Or.inr (isdir_link hwf hlink hl)
  · intro link hlink hdir cmd hcmd cs
    have hcalm := calm_cleanup h hwf cmd hcmd cs
    have hok : LinkOk w.disk link := by
      rcases hlink with rfl | rfl
      · exact hwf.current
      · exact hwf.previous
    rcases hok with hnone | ⟨l, hsome, hl⟩
    · have hreal : w.disk.realpath (.entry link) = .entry link := by
        simp only [Disk.realpath, Disk.follow, hnone]
      simp only [Disk.isdir, hreal, hnone] at hdir
      exact absurd hdir Bool.false_ne_true
    · rw [realpath_link hsome hl]
      rcases hl with rfl | ⟨v, files, rfl, _, hv⟩
      · have hmem := outsideDirs_of_factory hwf.factory
        exact ⟨hmem, hcalm.frame.outsideDirs ▸ hmem⟩
      · have hkept : Kept w.disk v := by
          rcases hlink with rfl | rfl
          · exact Or.inr (Or.inr (Or.inl hsome))
          · exact Or.inr (Or.inr (Or.inr hsome))
        exact ⟨files, hv, (hcalm.frame.node v (not_not.mpr hkept)).trans hv⟩

def sampleWorld : World :=
  ⟨⟨some ⟨[("1.0.0", .dir ["main.py"]), ("current", .link (.entry "1.0.0")), ("previous", .link factoryApp)],
    by decide⟩, ["/opt/pibuddycam"]⟩, .absent, none⟩

theorem sampleWorld_wellFormed : WellFormed sampleWorld.disk where
  factory := by decide
  current := Or.inr ⟨.entry "1.0.0", by decide, Or.inr ⟨"1.0.0", ["main.py"], rfl, by decide, by decide⟩⟩
  previous := Or.inr ⟨factoryApp, by decide, Or.inl rfl⟩

def sampleManifest : Manifest where
  schemaVersion := 1
  version := "1.1.0"
  channel := "stable"
  sourceCommit := "abc"
  minImageVersion := "0.1.0"
  bundleUrl := "bundle url"
  bundleSha256 := "0123456789abcdef0123456789abcdef0123456789abcdef0123456789abcdef"
  bundleSize := 1000
  releaseSummary := "fixes"
  releaseUrl := "release url"
  rebootRequired := false

/-- Every call succeeds and every callable returns `None`. -/
def granted : Choice where
  files := ["bundle.tar.zst"]
  suffix := "x"
  free := .number 1000000000
  size := 1000

def noRestart (n : ℕ) : Choice := { granted with raw := if n = 25 then .scalar (.other false) else .none }

def sampleHost : Host := ⟨fun _ => none, fun _ => none⟩

def cutUpdate : Journal :=
  (Command.update false { pid := 7, manifest := sampleManifest }).after sampleHost (List.replicate 25 granted) sampleWorld

theorem cutUpdate_resolves_and_keeps_targets :
    (cutUpdate.state.disk.node currentLink = none ∨ cutUpdate.state.disk.isdir (.entry currentLink) = true) ∧
      ∀ link, link = currentLink ∨ link = previousLink → cutUpdate.state.disk.isdir (.entry link) = true →
        ∀ cmd : Command, cmd.CleansUp → ∀ cs,
          SameDir cutUpdate.state.disk (cmd.after sampleHost cs cutUpdate.state).state.disk
            (cutUpdate.state.disk.realpath (.entry link)) :=
  current_resolves_and_cleanup_keeps_targets sampleWorld_wellFormed (.run _ _ .start)

/-- When no run ends between the swap of `current` and the verdict on the new version,
the release that is active after the next recovery is the factory app, the one that was
active at the start, or one that passed a health check in some run. -/
theorem active_release_proven_of_settled_runs {h : Host} {w0 w : World} {logs : List (List Entry)}
    (h0 : WellFormed w0.disk) (hw : Reach h w0 w logs) (hs : ∀ log ∈ logs, Settled log) (pid : ℕ)
    (cs : List Choice) :
    TrustedAfter w0 logs (currentTarget ((Command.recover pid).after h cs w).state.disk) := by
  have hwf := wellFormed_of_reach h0 hw
  have hcalm := calm_cleanup h hwf (.recover pid) trivial cs
  rw [currentTarget_of_frame hwf hcalm.frame]
  exact trusted_of_reach h0 hw hs

def healthyUpdate : Journal :=
  (Command.update false { pid := 7, manifest := sampleManifest }).after sampleHost
    (List.replicate 60 { granted with raw := .scalar (.other true) }) sampleWorld

theorem healthyUpdate_leaves_proven_release :
    currentTarget healthyUpdate.state.disk = .entry "1.1.0" ∧
      TrustedAfter sampleWorld [healthyUpdate.log]
        (currentTarget ((Command.recover 8).after sampleHost [] healthyUpdate.state).state.disk) := by
  refine ⟨by decide, active_release_proven_of_settled_runs sampleWorld_wellFormed (.run _ _ .start) ?_ 8 []⟩
  intro log hlog version
  obtain rfl : log = healthyUpdate.log := List.mem_singleton.mp hlog
  rw [show phase healthyUpdate.log = .idle by decide]
  exact Phase.noConfusion

/-- The update that is cut after the swap: the next recovery leaves 1.1.0 active, which
no health check has seen. -/
def isHealthCheck : Op → Bool
  | .effect (.healthCheck _) => true
  | _ => false

theorem cutUpdate_leaves_unproven_release :
    currentTarget sampleWorld.disk = .entry "1.0.0" ∧
      currentTarget ((Command.recover 8).after sampleHost (List.replicate 20 granted) cutUpdate.state).state.disk =
        .entry "1.1.0" ∧
      ((Command.recover 8).program sampleHost |>.exec journal (List.replicate 20 granted) ⟨cutUpdate.state, []⟩).1 =
        some () ∧
      ∀ version, ¬ HealthPassed version cutUpdate.log := by
  refine ⟨by decide, by decide, by decide, ?_⟩
  have hnone : cutUpdate.log.all (fun e => !isHealthCheck e.1) = true := by decide
  rintro version ⟨r, _, hmem⟩
  exact Bool.false_ne_true (List.all_eq_true.mp hnone _ hmem)

end PiBuddyCam.Updater
