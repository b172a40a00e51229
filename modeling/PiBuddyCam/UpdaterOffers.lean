import PiBuddyCam.UpdaterRefusal

/-! Whether the update-state document offers a version that is marked as bad. The document
that an install writes at its end names the version of its manifest, also when the install
has just rolled it back and marked it. -/
namespace PiBuddyCam.Updater

attribute [local irreducible] writeState

def UpdateState.Fair (d : Disk) (doc : UpdateState) : Prop :=
  doc.latestVersion ≠ "" → doc.latestVersion ≠ doc.installedVersion → ¬ Marked doc.latestVersion d

def OffersNoBad (w : World) : Prop := ∀ doc, w.updateState = some doc → doc.Fair w.disk

/-- The markers are those of `w`, and none of them is of an offered version. -/
structure FairAs (w : World) (t : Journal) : Prop where
  node : t.state.disk.node badDir = w.disk.node badDir
  fair : OffersNoBad t.state

def Op.Tame (w : World) (o : Op) : Prop := ¬ o.MayTouch badDir ∧ ∀ doc, o = .writeUpdateState doc → doc.Fair w.disk

variable {w : World} {t : Journal} {A : Choice → Prop}

theorem marked_congr {d d' : Disk} (h : d.node badDir = d'.node badDir) (v : String) : Marked v d ↔ Marked v d' := by
  rw [Marked, Marked, h]

theorem UpdateState.Fair.congr {doc : UpdateState} {d d' : Disk} (h : d'.node badDir = d.node badDir)
    (hdoc : doc.Fair d) : doc.Fair d' := by
  intro hsome hne hmarked
  exact hdoc hsome hne ((marked_congr h _).mp hmarked)

variable {o : Op}

theorem fairAs_step (ho : o.Tame w) (ht : FairAs w t) (c : Choice) : FairAs w (journal.step t o c).2 := by
  have hnode : (worldStep t.state o c).2.disk.node badDir = w.disk.node badDir :=
    ((frame_step t.state o c).node badDir ho.1).trans ht.node
  have hback := hnode.trans ht.node.symm
  refine ⟨hnode, fun doc hdoc => ?_⟩
  by_cases hwrite : ∃ new, o = .writeUpdateState new
  · obtain ⟨new, rfl⟩ := hwrite
    have hcases : t.state.updateState = some doc ∨ new = doc := by
      simp only [journal, Machine.traced, releaseTree, worldStep] at hdoc
      split_ifs at hdoc
      · exact Or.inl hdoc
      · exact Or.inr (Option.some.inj hdoc)
    rcases hcases with hold | rfl
    · exact (ht.fair doc hold).congr hback
    · exact (ho.2 new rfl).congr hnode
  · have hkeep : (worldStep t.state o c).2.updateState = t.state.updateState := by
      cases o with
      | writeUpdateState new => exact absurd ⟨new, rfl⟩ hwrite
      | writeLastCheck now =>
        simp only [worldStep]
        split_ifs <;> rfl
      | _ => rfl
    exact (ht.fair doc (hkeep.symm.trans hdoc)).congr hback

/-! Which calls are tame. -/

theorem tame_of_untouched (htouch : ¬ o.MayTouch badDir) (hwrite : ∀ doc, o ≠ .writeUpdateState doc) :
    o.Tame w :=
  ⟨htouch, fun doc h => absurd h (hwrite doc)⟩

theorem tame_of_reportsOn {D : UpdateState → Prop} (hD : ∀ doc, D doc → doc.Fair w.disk)
    (ho : o.ReportsOn D) : o.Tame w := by
  cases o with
  | writeUpdateState doc =>
    refine ⟨not_false, fun doc' h => ?_⟩
    obtain rfl := Op.writeUpdateState.inj h
    exact hD doc ho
  | effect e =>
    cases e with
    | verifyFile => exact tame_of_untouched nofun nofun
    | _ => exact (Op.ReportsOn.reports ho).elim
  | look | listIn | clock | uniform | readLastCheck | writeLastCheck | applicationVersion | makeTemp | fetchManifest
  | manifestIsFile | readManifest => exact tame_of_untouched not_false nofun
  | _ => exact (Op.ReportsOn.reports ho).elim

theorem fair_of_empty {doc : UpdateState} {d : Disk} (h : doc.Empty) : doc.Fair d := fun hsome => absurd h hsome

theorem removing_tame {x : String} (hx : x ≠ badDir) : Removing (Op.Tame w) x :=
  ⟨tame_of_untouched not_false nofun, fun _ => tame_of_untouched (fun h => hx h.symm) nofun,
    tame_of_untouched (fun h => hx h.symm) nofun⟩

theorem swapping_tame (pid : ℕ) {link : String} (hlink : link = currentLink ∨ link = previousLink) :
    Swapping (Op.Tame w) pid link := by
  have h : Swapping (Op.Spares none) pid link := swapping_spares pid hlink
  refine ⟨tame_of_untouched not_false nofun, fun target => ?_, ?_, ?_⟩
  · exact tame_of_untouched (fun he => h.symlink target he.symm) nofun
  · exact tame_of_untouched (fun he => he.elim (fun he => h.replace.1 he.symm) fun he => h.replace.2 he.symm) nofun
  · exact tame_of_untouched (fun he => h.remove he.symm) nofun

theorem look_tame : Op.Tame w .look := tame_of_untouched not_false nofun

theorem listdir_tame : Op.Tame w .listdir := tame_of_untouched not_false nofun

theorem recoverInterrupted_tame (pid : ℕ) : (recoverInterrupted pid).Within (Op.Tame w) := by
  refine recoverInterrupted_within look_tame listdir_tame (fun x hx => removing_tame ?_)
    (fun x hx => removing_tame (ne_badDir_of_isSemver hx)) (swapping_tame pid (Or.inl rfl))
    (tame_of_untouched (fun (h : badDir = currentLink) => absurd h (by decide)) nofun)
  rintro rfl
  exact absurd hx (by decide)

theorem tame_of_reports (ho : o.Reports) (hwrite : ∀ doc, o ≠ .writeUpdateState doc) : o.Tame w := by
  refine tame_of_reportsOn (D := fun _ => False) (fun _ h => h.elim) ?_
  cases o with
  | writeUpdateState doc => exact absurd rfl (hwrite doc)
  | _ => exact ho

theorem tame_of_checks (ho : o.Checks) : o.Tame w := by
  refine tame_of_reports (reports_of_checks ho) fun doc h => ?_
  rw [h] at ho
  exact ho

theorem tame_of_empty (ho : o.ReportsOn UpdateState.Empty) : o.Tame w :=
  tame_of_reportsOn (fun _ => fair_of_empty) ho

theorem tame_of_prepares {staging : String} (hst : staging ≠ badDir) (ho : o.Prepares staging) : o.Tame w := by
  have hspares : o.Spares none := spares_of_prepares hst ho
  cases o with
  | effect e => exact tame_of_untouched hspares nofun
  | removeIn x file => exact tame_of_untouched (fun h => hspares h.symm) nofun
  | look | freeSpace | isfile | getsize => exact tame_of_untouched not_false nofun
  | _ => exact ho.elim

theorem resolveVersions_tame (override : String) : (resolveVersions override).Within (Op.Tame w) := by
  unfold resolveVersions
  split_ifs
  · trivial
  refine .opBind look_tame fun (d : Disk) => ?_
  split_ifs
  · trivial
  exact ⟨tame_of_untouched not_false nofun, fun _ => trivial⟩

/-! A check. -/

variable {α : Type}

theorem safe_of_tame {p : Run α} (hp : p.Within (Op.Tame w)) (ht : FairAs w t) :
    p.Keeps journal A (FairAs w) t :=
  Prog.Within.safe hp ht fun _ _ c ho _ hu => fairAs_step ho hu c

variable {h : Host}

theorem fair_document {payload : Payload} {manifest : Manifest} {d : Disk}
    (hparse : parseManifest h payload = .ok manifest) (hbad : ¬ Marked manifest.version d) (shown reason : String) :
    (installStateDocument shown (some manifest) reason).Fair d := by
  intro _ _ hmarked
  have hlatest : (installStateDocument shown (some manifest) reason).latestVersion = manifest.version :=
    boundedText_version hparse
  exact hbad (hlatest ▸ hmarked)

/-- A manifest that a check shows is not of a marked version. -/
def CheckResult.ShowsFair (h : Host) (d : Disk) (r : CheckResult) : Prop :=
  r.outcome = .available ∨ r.outcome = .upToDate →
    ∀ m, r.manifest = some m → ¬ Marked m.version d ∧ ∃ payload, parseManifest h payload = .ok m

theorem writeCheckState_tame {result : CheckResult} (hresult : result.ShowsFair h w.disk)
    (display : String) :
    (writeCheckState display result).Within (Op.Tame w) := by
  have hempty (reason : String) : (writeState display none reason).Within (Op.Tame w) :=
    (writeState_empty display reason).mono fun _ => tame_of_empty
  have hmanifest (hshown : result.outcome = .available ∨ result.outcome = .upToDate) (reason : String) :
      (writeState display result.manifest reason).Within (Op.Tame w) := by
    cases hm : result.manifest with
    | none => exact hempty reason
    | some m =>
      obtain ⟨hbad, payload, hparse⟩ := hresult hshown m hm
      exact (writeState_reports (fair_document hparse hbad display reason)).mono fun _ => tame_of_reportsOn fun _ h => h
  unfold writeCheckState
  split
  · exact .bind (hmanifest (Or.inl ‹_›) _) fun _ => trivial
  · exact .bind (hmanifest (Or.inr ‹_›) _) fun _ => trivial
  · exact .bind (hempty _) fun _ => trivial
  · exact .bind (hempty _) fun _ => trivial

theorem safe_cliCheck_fair (ht : FairAs w t) (h : Host) (a : CheckCommand) :
    (cliCheck h a).Keeps journal Reads (FairAs w) t := by
  apply Prog.Safe.bind (safe_of_tame (recoverInterrupted_tame a.pid) ht)
  intro _ u hu
  apply Prog.Safe.bind (safe_of_tame (resolveVersions_tame _) hu)
  rintro ⟨display, compare⟩ u hu
  have hempty (reason : String) : (writeState display none reason).Within (Op.Tame w) :=
    (writeState_empty display reason).mono fun _ => tame_of_empty
  split_ifs
  · exact .bind (safe_of_tame (hempty _) hu) fun _ _ hv => hv
  refine .bind (safe_of_tame (p := makeTemp) ⟨tame_of_untouched not_false nofun, fun _ => trivial⟩ hu) ?_
  rintro (e | _) u hu
  · exact hu
  refine .bind (safe_of_tame (p := fetchManifest) ⟨tame_of_untouched not_false nofun, fun _ => trivial⟩ hu) ?_
  rintro (e | payload) u hu
  · exact .bind (safe_of_tame (hempty _) hu) fun _ _ hv => hv
  refine safe_readBadVersions_all fun bad r hbad => ?_
  have hread : FairAs w (Traced.goOn u u.state.disk [⟨.listIn badDir, r⟩]) := ⟨hu.node, hu.fair⟩
  refine ⟨hread, ?_⟩
  -- the list has every version with a marker, and no manifest of the list is shown
  have hcheck (args : CheckArgs) (hforce : args.forceReinstall = false) (hargs : args.badVersions = bad) :
      (checkForUpdate h args).Safe journal Reads (FairAs w)
        (fun result v => FairAs w v ∧ result.ShowsFair h w.disk)
        (Traced.goOn u u.state.disk [⟨.listIn badDir, r⟩]) := by
    have hresult := log_checkForUpdate_of (Q := fun result => result.ShowsFair h w.disk) h args
      (Traced.goOn u u.state.disk [⟨.listIn badDir, r⟩]).log (fun _ _ m hm => nomatch hm)
      (fun result _ hne hne' hshown => (hshown.elim hne hne').elim)
      (fun payload manifest outcome reason next hparse hgood _ m hm => by
        obtain rfl := Option.some.inj hm
        refine ⟨fun hmarked => hgood hforce ?_, payload, hparse⟩
        rw [hargs]
        exact hbad _ (parseManifest_versions hparse).1.1 ((marked_congr hu.node _).mpr hmarked))
    exact (Prog.Safe.conj (safe_of_tame ((checkForUpdate_within h args).mono fun _ => tame_of_checks) hread)
      (hresult.traced (m := releaseTree))).mono (fun _ hv => hv.1) fun _ _ hv => hv
  apply Prog.Safe.bind (hcheck _ rfl rfl)
  rintro result v ⟨hv, hresult⟩
  exact .bind (safe_of_tame (writeCheckState_tame hresult display) hv) fun _ _ hx => hx

/-! An install. -/

def works : Entry → Bool
  | ⟨.effect (.restartServices _), raw⟩ => (effectResult raw).1
  | ⟨.effect (.healthCheck _), raw⟩ => healthOk raw
  | _ => true

def Healthy (log : List Entry) : Prop := log.all works = true

def FairIfHealthy (w : World) (t : Journal) : Prop := Healthy t.log → FairAs w t

theorem Healthy.of_append {log : List Entry} {e : Entry} (h : Healthy (log ++ [e])) : Healthy log := by
  rw [Healthy, List.all_append, Bool.and_eq_true] at h
  exact h.1

theorem not_healthy_append {log : List Entry} {e : Entry} (he : works e = false) : ¬ Healthy (log ++ [e]) := by
  intro h
  rw [Healthy, List.all_append, Bool.and_eq_true, List.all_cons, he] at h
  exact Bool.false_ne_true h.2

theorem fairIfHealthy_step (ho : o.Tame w) (ht : FairIfHealthy w t) (c : Choice) :
    FairIfHealthy w (journal.step t o c).2 := fun hlog => fairAs_step ho (ht (Healthy.of_append hlog)) c

theorem safe_of_tame_healthy {p : Run α} (hp : p.Within (Op.Tame w)) (ht : FairIfHealthy w t) :
    p.Keeps journal A (FairIfHealthy w) t :=
  Prog.Within.safe hp ht fun _ _ c ho _ hu => fairIfHealthy_step ho hu c

theorem safe_unhealthy (p : Run α) (ht : ¬ Healthy t.log) :
    p.Safe journal A (FairIfHealthy w) (fun _ u => ¬ Healthy u.log) t := by
  induction p generalizing t with
  | ret a => exact ht
  | call o k ih =>
    intro c _
    have hstep : ¬ Healthy (journal.step t o c).2.log := fun h => ht (Healthy.of_append h)
    exact ⟨fun h => absurd h hstep, ih _ hstep⟩

theorem safe_unhealthy_fair (p : Run α) (ht : ¬ Healthy t.log) :
    p.Keeps journal A (FairIfHealthy w) t :=
  (safe_unhealthy p ht).post fun _ _ hu h => absurd h hu

theorem safe_restart (ht : FairIfHealthy w t) (version : String) :
    (effect (.restartServices version)).Safe journal A (FairIfHealthy w)
      (fun r u => FairIfHealthy w u ∧ (r.1 = false → ¬ Healthy u.log)) t := by
  intro c _
  have hstep := fairIfHealthy_step (o := .effect (.restartServices version)) (tame_of_untouched nofun nofun) ht c
  exact ⟨hstep, hstep, fun hfailed => not_healthy_append (e := ⟨.effect (.restartServices version), c.raw⟩) hfailed⟩

theorem safe_waitForHealth (ht : FairIfHealthy w t) (version : String) :
    (waitForHealth version).Safe journal A (FairIfHealthy w)
      (fun healthy u => FairIfHealthy w u ∧ (healthy = false → ¬ Healthy u.log)) t := by
  refine .bind (p := clock) (Q := fun _ => FairIfHealthy w) (fun c _ => ?_) fun now u hu => ?_
  · have hstep := fairIfHealthy_step (o := .clock) (tame_of_untouched not_false nofun) ht c
    exact ⟨hstep, hstep⟩
  refine .bind (p := inject (.healthCheck version))
    (Q := fun raw v => FairIfHealthy w v ∧ (healthOk raw = false → ¬ Healthy v.log)) (fun c _ => ?_) ?_
  · have hstep := fairIfHealthy_step (o := .effect (.healthCheck version)) (tame_of_untouched nofun nofun) hu c
    exact ⟨hstep, hstep, fun hfailed => not_healthy_append (e := ⟨.effect (.healthCheck version), c.raw⟩) hfailed⟩
  rintro raw v ⟨hv, hfailed⟩
  split_ifs with hok
  · exact ⟨hv, fun h => nomatch h⟩
  -- one failed probe is enough
  refine (safe_unhealthy _ (hfailed (Bool.not_eq_true _ ▸ hok))).post fun healthy x hx => ?_
  exact ⟨fun h => absurd h hx, fun _ => hx⟩

theorem safe_activate_fair (ht : FairIfHealthy w t) (stop : Bool) (a : InstallArgs) (version previousVersion : String) :
    (activate (ownEffects a.pid stop) a version previousVersion).Keeps journal A (FairIfHealthy w) t := by
  apply Prog.Safe.bind (safe_restart ht version)
  rintro ⟨ok, reason⟩ u ⟨hu, hfailed⟩
  dsimp only
  split_ifs with hok
  · exact safe_unhealthy_fair _ (hfailed hok)
  apply Prog.Safe.bind (safe_waitForHealth hu version)
  rintro healthy v ⟨hv, hfailed⟩
  split_ifs with hhealthy
  · exact safe_unhealthy_fair _ (hfailed hhealthy)
  have hprune : (defaultPrune ([version, previousVersion].filter (· ≠ ""))).Within (Op.Tame w) :=
    defaultPrune_within look_tame listdir_tame (fun _ hx => removing_tame (ne_badDir_of_isSemver hx)) _
  refine .bind (Q := fun _ => FairIfHealthy w) ?_ fun _ _ hx => hx
  exact .bind (safe_of_tame_healthy hprune hv) fun _ _ hx => hx

theorem safe_installFrom_fair (ht : FairIfHealthy w t) (stop : Bool) (a : InstallArgs) (version : String)
    {staging : String} (hst : staging ≠ badDir) :
    (installFrom (ownEffects a.pid stop) a version staging).Keeps journal A (FairIfHealthy w) t := by
  have hprepares {α : Type} {p : Run α} {u : Journal} (hu : FairIfHealthy w u) (hp : p.Within (Op.Prepares staging)) :
      p.Keeps journal A (FairIfHealthy w) u :=
    safe_of_tame_healthy (hp.mono fun _ => tame_of_prepares hst) hu
  have hstopped {u : Journal} (hu : FairIfHealthy w u) (quiesced : Bool) (why : Stop) :
      (stopped a version quiesced why).Keeps journal A (FairIfHealthy w) u :=
    safe_of_tame_healthy (stopped_within look_tame a version quiesced why) hu
  apply Prog.Safe.bind (hprepares ht (fetchBundle_within a.manifest staging))
  rintro (why | _) u hu
  · exact hstopped hu _ _
  apply Prog.Safe.bind (hprepares hu (buildRelease_within _ a.manifest staging))
  rintro (why | _) u hu
  · exact hstopped hu _ _
  refine .bind (safe_of_tame_healthy (p := look) ⟨look_tame, fun _ => trivial⟩ hu) fun d u hu => ?_
  have hswitch : (switchRelease a.pid staging version).Within (Op.Tame w) :=
    switchRelease_within look_tame (tame_of_untouched not_false nofun)
      (fun hv => tame_of_untouched
        (fun h => h.elim (fun h => hst h.symm) fun h => ne_badDir_of_isSemver hv h.symm) nofun)
      (swapping_tame a.pid (Or.inr rfl)) (swapping_tame a.pid (Or.inl rfl))
      (fun hv => removing_tame (ne_badDir_of_isSemver hv))
  refine .bind (Q := fun _ => FairIfHealthy w) ?_ fun raw u hu => ?_
  · exact .bind (safe_of_tame_healthy hswitch hu) fun _ _ hx => hx
  dsimp only
  split_ifs
  · exact hstopped hu _ _
  · exact .bind (safe_activate_fair hu stop a version _) fun _ _ hx => hx

theorem around_tame : Around (Op.Tame w) where
  look := look_tame
  markers := tame_of_untouched not_false nofun
  makedirs := tame_of_untouched not_false nofun
  mkdtemp _ := tame_of_untouched (fun h => ne_badDir_of_stem h rfl) nofun
  restart _ := tame_of_untouched nofun nofun
  remove := removing_tame

theorem safe_installUpdate_fair (ht : FairIfHealthy w t) (stop : Bool) (a : InstallArgs) :
    (installUpdate (ownEffects a.pid stop) a).Keeps journal A (FairIfHealthy w) t :=
  safe_installUpdate_of around_tame ht stop a (fun _ _ c ho _ hu => fairIfHealthy_step ho hu c)
    fun _ _ _ hst hu => safe_installFrom_fair hu stop a _ hst

def Unmarked (h : Host) (w : World) (c : Choice) : Prop :=
  ∀ text m, c.text = some text → parseManifest h (.text text) = .ok m → ¬ Marked m.version w.disk

theorem safe_loadManifest (ht : FairIfHealthy w t) (display : String) :
    (loadManifest h display).Safe journal (Unmarked h w) (FairIfHealthy w)
      (fun r u => FairIfHealthy w u ∧ ∀ m, r = .ok m → ∃ payload, parseManifest h payload = .ok m ∧
        ¬ Marked m.version w.disk) t := by
  have hempty {u : Journal} (hu : FairIfHealthy w u) (reason : String) (out : Except String ℕ) :
      (do writeState display none reason; pure (.error out) : Run (Except (Except String ℕ) Manifest)).Safe journal
        (Unmarked h w) (FairIfHealthy w)
        (fun r v => FairIfHealthy w v ∧ ∀ m, r = .ok m → ∃ payload, parseManifest h payload = .ok m ∧
          ¬ Marked m.version w.disk) u :=
    Prog.Safe.bind (safe_of_tame_healthy ((writeState_empty display reason).mono fun _ => tame_of_empty) hu)
      fun _ _ hv => ⟨hv, by simp⟩
  apply Prog.Safe.bind (safe_of_tame_healthy (p := effect .verifyFile)
    (effect_within (tame_of_untouched (by simp [Op.MayTouch, Effect.staging]) (by simp))) ht)
  rintro ⟨ok, reason⟩ u hu
  dsimp only
  split_ifs
  · exact hempty hu _ _
  apply safe_sys (o := .readManifest)
  intro c hc
  have hread (r : Except String (Option String)) :
      FairIfHealthy w (Traced.goOn u u.state.disk [⟨.readManifest, r⟩]) := fun hlog => by
    obtain hfair := hu (Healthy.of_append hlog)
    exact ⟨hfair.node, hfair.fair⟩
  simp only [worldStep]
  refine ⟨hread _, ?_⟩
  split
  · exact hempty (hread _) _ _
  · exact ⟨hread _, by simp⟩
  rename_i text hresult
  have htext : c.text = some text := by
    replace hresult :
        (if c.fails then .error c.error else .ok c.text : Except String (Option String)) = .ok (some text) := hresult
    split_ifs at hresult
    exact Except.ok.inj hresult
  split
  · exact hempty (hread _) _ _
  rename_i manifest hparse
  refine ⟨hread _, fun m hm => ?_⟩
  obtain rfl := Except.ok.inj hm
  exact ⟨.text text, hparse, hc text _ htext hparse⟩

theorem safe_cliInstall_fair (ht : FairIfHealthy w t) (a : InstallCommand) :
    (cliInstall h a).Keeps journal (Unmarked h w) (FairIfHealthy w) t := by
  apply Prog.Safe.bind (safe_of_tame_healthy (recoverInterrupted_tame a.pid) ht)
  intro _ u hu
  apply Prog.Safe.bind (safe_of_tame_healthy (resolveVersions_tame _) hu)
  rintro ⟨display, compare⟩ u hu
  apply Prog.Safe.bind (safe_of_tame_healthy ((locateManifest_empty display a.source).mono fun _ => tame_of_empty) hu)
  rintro (out | _) u hu
  · exact hu
  apply Prog.Safe.bind (safe_loadManifest hu display)
  rintro (out | manifest) u ⟨hu, hmanifest⟩
  · exact hu
  obtain ⟨payload, hparse, hbad⟩ := hmanifest manifest rfl
  let args : InstallArgs :=
    { pid := a.pid, manifest, currentVersion := compare, currentImageVersion := a.currentImageVersion,
      forceReinstall := a.forceReinstall }
  apply Prog.Safe.bind (safe_installUpdate_fair hu true args)
  intro result v hv
  have hwrite (shown : String) : (writeState shown (some manifest) "").Within (Op.Tame w) :=
    (writeState_reports (fair_document hparse hbad shown "")).mono fun _ => tame_of_reportsOn fun _ h => h
  exact .bind (safe_of_tame_healthy (hwrite _) hv) fun _ _ hx => hx

/-- Sequences of checks and installs, each cut at any point, in which every check can read
the directory of the markers, and every install finds a manifest of a version without a
marker, with restarts and health probes that succeed. -/
inductive SoundRuns (h : Host) (w0 : World) : World → Prop
  | start : SoundRuns h w0 w0
  | check {w : World} (a : CheckCommand) (cs : List Choice) : SoundRuns h w0 w → (∀ c ∈ cs, Reads c) →
      SoundRuns h w0 ((Command.check a).after h cs w).state
  | install {w : World} (a : InstallCommand) (cs : List Choice) : SoundRuns h w0 w → (∀ c ∈ cs, Unmarked h w c) →
      Healthy ((Command.install a).after h cs w).log → SoundRuns h w0 ((Command.install a).after h cs w).state

/-- In such a sequence the update-state document never offers a version that is marked as
bad. -/
theorem sound_runs_offer_no_bad_version {h : Host} {w0 w : World} (h0 : OffersNoBad w0) (hw : SoundRuns h w0 w) :
    OffersNoBad w := by
  induction hw with
  | start => exact h0
  | @check w a cs hw hcs ih =>
    have hstart : FairAs w ⟨w, []⟩ := ⟨rfl, ih⟩
    have hsafe : ((Command.check a).program h).Safe journal Reads (FairAs w) (fun _ => FairAs w) ⟨w, []⟩ :=
      Prog.Safe.bind (safe_cliCheck_fair hstart h a) fun _ _ hu => hu
    exact (hsafe.exec hstart hcs).1.fair
  | @install w a cs hw hcs hhealthy ih =>
    have hstart : FairIfHealthy w ⟨w, []⟩ := fun _ => ⟨rfl, ih⟩
    have hsafe : ((Command.install a).program h).Safe journal (Unmarked h w) (FairIfHealthy w)
        (fun _ => FairIfHealthy w) ⟨w, []⟩ :=
      Prog.Safe.bind (safe_cliInstall_fair hstart a) fun _ _ hu => hu
    exact ((hsafe.exec hstart hcs).1 hhealthy).fair

/-- An install of 1.1.0 over 1.0.0 in which the `k`th call, if it is to a callable, fails. -/
def sampleInstall (k : ℕ) : Journal :=
  (Command.install { pid := 7, source := .path }).after checkHost
    ((List.range 60).map fun n => { granted with text := some "manifest", raw := .scalar (.other (n ≠ k)) }) sampleWorld

theorem sampleWorld_offersNoBad : OffersNoBad sampleWorld := fun _ h => nomatch h

/-- After a failed download the version is still offered, and it has no marker. -/
theorem failed_download_offers_no_bad_version :
    (sampleInstall 18).state.updateState = some ⟨"1.0.0", "1.1.0", "fixes", "release url"⟩ ∧
      OffersNoBad (sampleInstall 18).state := by
  have hnode : sampleWorld.disk.node badDir = none := by decide
  have hunmarked (c : Choice) : Unmarked checkHost sampleWorld c := fun _ _ _ _ ⟨_, hdir, _⟩ =>
    nomatch hnode.symm.trans hdir
  have hhealthy : (sampleInstall 18).log.all works = true := by decide +kernel
  refine ⟨by decide +kernel, sound_runs_offer_no_bad_version (h := checkHost) sampleWorld_offersNoBad ?_⟩
  exact .install _ _ .start (fun c _ => hunmarked c) hhealthy

/-- The restart after the switch fails: the install rolls back, marks 1.1.0 as bad and then
offers it. -/
theorem rolled_back_version_is_offered :
    OffersNoBad sampleWorld ∧
      (sampleInstall 39).state.updateState = some ⟨"1.0.0", "1.1.0", "fixes", "release url"⟩ ∧
      Marked "1.1.0" (sampleInstall 39).state.disk ∧ ¬ OffersNoBad (sampleInstall 39).state := by
  have hdoc : (sampleInstall 39).state.updateState = some ⟨"1.0.0", "1.1.0", "fixes", "release url"⟩ := by
    decide +kernel
  have hmarked : Marked "1.1.0" (sampleInstall 39).state.disk :=
    ⟨[markerName "1.1.0"], by decide +kernel, List.mem_cons_self⟩
  refine ⟨sampleWorld_offersNoBad, hdoc, hmarked, fun h => ?_⟩
  exact h _ hdoc (by decide) (by decide) hmarked

end PiBuddyCam.Updater
