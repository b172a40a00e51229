import PiBuddyCam.UpdaterBadMarkers
import PiBuddyCam.UpdaterCheckState

/-! A version that was marked bad is refused ever after. -/
namespace PiBuddyCam.Updater

attribute [local irreducible] writeState

variable {A : Choice → Prop} {J : Journal → Prop} {t : Journal}

theorem safe_makeStaging_of_step (ht : J t) (version : String)
    (hmake : ∀ t c, A c → J t → J (journal.step t .makedirs c).2)
    (htemp : ∀ t c, A c → J t → J (journal.step t (.mkdtemp (stagingStem version)) c).2) :
    (makeStaging version).Safe journal A J (fun r u => J u ∧ ∀ staging, r = .ok staging → staging ≠ badDir) t := by
  refine .bind (p := makedirs) (Q := fun _ => J) (fun c hc => ?_) ?_
  · exact ⟨hmake t c hc ht, hmake t c hc ht⟩
  rintro (e | _) u hu
  · exact ⟨hu, nofun⟩
  intro c hc
  have hJ := htemp u c hc hu
  refine ⟨hJ, hJ, fun staging hr => ?_⟩
  simp only [journal, Machine.traced, releaseTree, worldStep, World.onDisk, Disk.mkdtemp] at hr
  split_ifs at hr
  rw [← Except.ok.inj hr]
  exact ne_badDir_of_stem (String.toList_append ▸ List.prefix_append _ _)

/-- The calls that `install_update` makes before and after the install itself. -/
structure Around (P : Op → Prop) : Prop where
  look : P .look
  markers : P (.listIn badDir)
  makedirs : P .makedirs
  mkdtemp : ∀ version, P (.mkdtemp (stagingStem version))
  restart : ∀ version, P (.effect (.restartServices version))
  remove : ∀ {staging}, staging ≠ badDir → Removing P staging

theorem safe_installUpdate_of {P : Op → Prop} (hP : Around P) (ht : J t) (stop : Bool) (a : InstallArgs)
    (hstep : ∀ t o c, P o → A c → J t → J (journal.step t o c).2)
    (hfrom : ∀ staging u, isSemver a.manifest.version = true → staging ≠ badDir → J u →
      (installFrom (ownEffects a.pid stop) a a.manifest.version staging).Keeps journal A J u) :
    (installUpdate (ownEffects a.pid stop) a).Keeps journal A J t := by
  have hfailed {u : Journal} (hu : J u) (version : String) (reason : Val) :
      (failed a version reason).Keeps journal A J u :=
    Prog.Within.safe (failed_within hP.look a _ _) hu hstep
  unfold installUpdate
  split
  · exact hfailed ht _ _
  rename_i version hversion
  obtain ⟨hsem, rfl⟩ : isSemver a.manifest.version = true ∧ a.manifest.version = version := by
    unfold manifestVersion at hversion
    split_ifs at hversion with hsem
    exact ⟨hsem, Option.some.inj hversion⟩
  have hrefused : (refusedVersions a.forceReinstall).Within P := by
    unfold refusedVersions
    split_ifs
    · trivial
    · exact ⟨hP.markers, fun _ => trivial⟩
  split_ifs
  · exact hfailed ht _ _
  apply Prog.Safe.bind (Prog.Within.safe hrefused ht hstep)
  intro refused u hu
  dsimp only
  split_ifs
  · exact hfailed hu _ _
  refine .bind (p := look) (Prog.Within.safe ⟨hP.look, fun _ => trivial⟩ hu hstep) fun d v hv => ?_
  split_ifs
  · apply Prog.Safe.bind (safe_makeStaging_of_step hv a.manifest.version (fun t c => hstep t _ c hP.makedirs)
      fun t c => hstep t _ c (hP.mkdtemp _))
    rintro (e | staging) w ⟨hw, hst⟩
    · exact hfailed hw _ _
    have hst := hst staging rfl
    apply Prog.Safe.bind (hfrom staging w hsem hst hw)
    intro out x hx
    have hclean : (cleanUp a.manifest.version staging out).Within P :=
      cleanUp_within hP.look hP.restart (hP.remove hst) _ _
    apply Prog.Safe.bind (Prog.Within.safe hclean hx hstep)
    intro _ y hy
    split
    · exact hy
    · exact hy
  · exact hfailed hv _ _

theorem around_spares : Around (Op.Spares none) :=
  ⟨trivial, trivial, trivial, fun _ => ⟨_, rfl⟩, fun _ => nofun, removing_spares⟩

theorem safe_installUpdate_of_step (ht : J t) (stop : Bool) (a : InstallArgs)
    (hnone : ∀ t o c, o.Spares none → A c → J t → J (journal.step t o c).2)
    (hstep : isSemver a.manifest.version = true →
      ∀ t o c, o.Spares (some a.manifest.version) → A c → J t → J (journal.step t o c).2) :
    (installUpdate (ownEffects a.pid stop) a).Keeps journal A J t :=
  safe_installUpdate_of around_spares ht stop a hnone fun _ _ hsem hst hu =>
    Prog.Within.safe (installFrom_spares stop a _ hst) hu (hstep hsem)

/-- What every call that spares the markers keeps, and every install of the command, the
command keeps. -/
theorem safe_command_of_install (h : Host) (cmd : Command) (ht : J t)
    (hnone : ∀ t o c, o.Spares none → A c → J t → J (journal.step t o c).2)
    (hinstall : ∀ (a : InstallArgs) (stop : Bool) (t : Journal), a.forceReinstall = cmd.forced → J t →
      (installUpdate (ownEffects a.pid stop) a).Keeps journal A J t) :
    (cmd.program h).Keeps journal A J t := by
  have hpart {α : Type} {p : Run α} {u : Journal} (hp : p.Within Op.Reports) (hu : J u) :
      p.Keeps journal A J u :=
    Prog.Within.safe (hp.mono fun _ => spares_of_reports) hu hnone
  exact safe_command_of h cmd ht hpart hpart (fun _ h => h)
    (fun pid _ hu => Prog.Within.safe (recoverInterrupted_spares pid) hu hnone)
    (fun kept => Prog.Within.safe (defaultPrune_spares kept) ht hnone) hinstall

theorem safe_command_of_step (h : Host) (cmd : Command) (ht : J t)
    (hstep : ∀ target, (∀ x, target = some x → isSemver x = true) →
      ∀ t o c, o.Spares target → J t → J (journal.step t o c).2) :
    (cmd.program h).Keeps journal A J t := by
  have hnone (t : Journal) (o : Op) (c : Choice) (ho : o.Spares none) (_ : A c) (ht : J t) : J (journal.step t o c).2 :=
    hstep none (fun x hx => nomatch hx) t o c ho ht
  refine safe_command_of_install h cmd ht hnone fun a stop t _ ht => ?_
  refine safe_installUpdate_of_step ht stop a hnone fun hsem t o c ho _ ht => ?_
  exact hstep _ (fun x hx => Option.some.inj hx ▸ hsem) t o c ho ht

theorem marked_of_reach {h : Host} {w0 w : World} {logs : List (List Entry)} (hw : Reach h w0 w logs)
    {log : List Entry} (hlog : log ∈ logs) {v : String} (hrec : Recorded v log) :
    isSemver v = true ∧ Marked v w.disk := by
  induction hw with
  | start => exact absurd hlog List.not_mem_nil
  | @run w logs cmd cs hw ih =>
    rcases List.mem_append.mp hlog with hold | hnew
    · obtain ⟨hv, hmarked⟩ := ih hold
      have hsafe := safe_command_of_step (A := fun _ => True) (J := fun t : Journal => Marked v t.state.disk) (t := ⟨w, []⟩) h cmd
        hmarked fun _ htarget _ _ c ho ht => marked_step htarget ho c ht
      exact ⟨hv, (hsafe.exec hmarked fun _ _ => trivial).1⟩
    · obtain rfl := List.mem_singleton.mp hnew
      have hstart : MarksKept ⟨w, []⟩ := fun v ⟨_, hmem⟩ => absurd hmem List.not_mem_nil
      have hsafe := safe_command_of_step (A := fun _ => True) h cmd hstart
        fun _ htarget _ _ c ho ht => marksKept_step htarget ho c ht
      exact (hsafe.exec hstart fun _ _ => trivial).1 v hrec

def Reads (c : Choice) : Prop := c.readFails = false

theorem mem_badVersions {v : String} (hv : isSemver v = true) {names : List String} (hmem : markerName v ∈ names) :
    v ∈ (names.filter (PyText.endswith · ".json")).filterMap (fun name =>
      let version := PyText.dropRight 5 name
      if isSemver version then some version else none) := by
  have hends : PyText.endswith (markerName v) ".json" = true := by
    rw [PyText.endswith, List.isSuffixOf_iff_suffix, markerName, String.toList_append]
    exact List.suffix_append _ _
  have hdrop : PyText.dropRight 5 (markerName v) = v := by
    have hlen : ".json".toList.length = 5 := by decide
    rw [PyText.dropRight, markerName, String.toList_append, List.length_append, hlen, Nat.add_sub_cancel,
      List.take_left, String.ofList_toList]
  refine List.mem_filterMap.mpr ⟨markerName v, List.mem_filter.mpr ⟨hmem, hends⟩, ?_⟩
  rw [hdrop, if_pos hv]

theorem safe_readBadVersions_all {β : Type} {f : List String → Run β} {Q : β → Journal → Prop}
    (hf : ∀ bad r, (∀ v, isSemver v = true → Marked v t.state.disk → v ∈ bad) →
      GoesOn Reads J Q t t.state.disk ⟨.listIn badDir, r⟩ (f bad)) :
    (readBadVersions >>= f).Safe journal Reads J Q t := by
  apply safe_sys (o := .listIn badDir) (f := fun names => f (((Except.toOption names).getD []).filter
    (PyText.endswith · ".json") |>.filterMap fun name =>
      let version := PyText.dropRight 5 name
      if isSemver version then some version else none))
  intro c hc
  refine hf _ _ fun v hv ⟨files, hfiles, hmem⟩ => ?_
  rw [listIn_of_reads hfiles hc]
  exact mem_badVersions hv ((mem_arrange c files _).mpr hmem)

theorem safe_readBadVersions {β : Type} {f : List String → Run β} {Q : β → Journal → Prop} {v : String}
    (hv : isSemver v = true) (ht : Marked v t.state.disk)
    (hf : ∀ bad r, v ∈ bad → GoesOn Reads J Q t t.state.disk ⟨.listIn badDir, r⟩ (f bad)) :
    (readBadVersions >>= f).Safe journal Reads J Q t :=
  safe_readBadVersions_all fun bad r hbad => hf bad r (hbad v hv ht)

/-- The version is marked and no call has renamed to it. -/
structure Refused (v : String) (t : Journal) : Prop where
  marked : Marked v t.state.disk
  notRenamed : NotRenamed v t.log

variable {v : String}

theorem refused_step {target : Option String} (htarget : ∀ x, target = some x → isSemver x = true ∧ x ≠ v) {o : Op}
    (ho : o.Spares target) (c : Choice) (ht : Refused v t) : Refused v (journal.step t o c).2 := by
  refine ⟨marked_step (fun x hx => (htarget x hx).1) ho c ht.marked, fun src r hmem => ?_⟩
  rcases List.mem_append.mp hmem with hold | hnew
  · exact ht.notRenamed src r hold
  · obtain rfl : Op.rename src v = o := congrArg Sigma.fst (List.mem_singleton.mp hnew)
    exact (htarget v ho.2).2 rfl

theorem refused_none {o : Op} (ho : o.Spares none) (c : Choice) (ht : Refused v t) :
    Refused v (journal.step t o c).2 :=
  refused_step (by nofun) ho c ht

theorem safe_unforced (hv : isSemver v = true) (ht : Refused v t) (stop : Bool) (a : InstallArgs)
    (hforce : a.forceReinstall = false) :
    (installUpdate (ownEffects a.pid stop) a).Keeps journal Reads (Refused v) t := by
  have hnone (t : Journal) (o : Op) (c : Choice) (ho : o.Spares none) (_ : Reads c) (ht : Refused v t) :
      Refused v (journal.step t o c).2 := refused_none ho c ht
  by_cases hversion : a.manifest.version = v
  · have hfailed {u : Journal} (hu : Refused v u) (version : String) (reason : Val) :
        (failed a version reason).Keeps journal Reads (Refused v) u :=
      Prog.Within.safe (failed_within trivial a version reason) hu hnone
    unfold installUpdate
    rw [manifestVersion, hversion, if_pos hv, hforce]
    split_ifs
    · exact hfailed ht _ _
    refine safe_readBadVersions hv ht.marked fun bad r hmem => ?_
    have hread : Refused v (Traced.goOn t t.state.disk [⟨.listIn badDir, r⟩]) := by
      refine ⟨ht.marked, fun src r' hmem => ?_⟩
      rcases List.mem_append.mp hmem with hold | hnew
      · exact ht.notRenamed src r' hold
      · exact nomatch congrArg Sigma.fst (List.mem_singleton.mp hnew)
    refine ⟨hread, ?_⟩
    rw [if_pos (List.contains_iff_mem.mpr hmem)]
    exact hfailed hread _ _
  · refine safe_installUpdate_of_step ht stop a hnone fun hsem t o c ho _ ht => ?_
    refine refused_step (fun x hx => ?_) ho c ht
    rw [← Option.some.inj hx]
    exact ⟨hsem, hversion⟩

theorem safe_cliCheck (hv : isSemver v = true) (ht : Marked v t.state.disk) (h : Host) (a : CheckCommand) :
    (cliCheck h a).Safe journal Reads (fun t => Marked v t.state.disk)
      (fun r _ => ∀ result code, r = .ok (some result, code) → result.Avoids [v]) t := by
  have hnone (t : Journal) (o : Op) (c : Choice) (ho : o.Spares none) (_ : Reads c) (ht : Marked v t.state.disk) :
      Marked v (journal.step t o c).2.state.disk := marked_step (by nofun) ho c ht
  have hpart {α : Type} {p : Run α} {u : Journal} (hu : Marked v u.state.disk) (hp : p.Within Op.Reports) :
      p.Safe journal Reads (fun t => Marked v t.state.disk) (fun _ t => Marked v t.state.disk) u :=
    Prog.Within.safe (J := fun t : Journal => Marked v t.state.disk) (hp.mono fun _ => spares_of_reports) hu hnone
  apply Prog.Safe.bind (Prog.Within.safe (J := fun t : Journal => Marked v t.state.disk) (recoverInterrupted_spares a.pid) ht hnone)
  intro _ u hu
  apply Prog.Safe.bind (hpart hu (resolveVersions_within _))
  rintro ⟨display, compare⟩ u hu
  split_ifs
  · apply Prog.Safe.bind (hpart hu (writeState_within _ _ _))
    exact fun _ _ _ _ _ he => nomatch he
  refine .bind (hpart hu (p := makeTemp) ⟨trivial, fun _ => trivial⟩) ?_
  rintro (e | _) u hu
  · exact fun _ _ he => nomatch he
  refine .bind (hpart hu (p := fetchManifest) ⟨trivial, fun _ => trivial⟩) ?_
  rintro (e | payload) u hu
  · apply Prog.Safe.bind (hpart hu (writeState_within _ _ _))
    exact fun _ _ _ _ _ he => nomatch he
  refine safe_readBadVersions hv hu fun bad r hmem => ⟨hu, ?_⟩
  have hcheck (args : CheckArgs) (hforce : args.forceReinstall = false) (u : Journal) (hu : Marked v u.state.disk) :
      (checkForUpdate h args).Safe journal Reads (fun t => Marked v t.state.disk)
        (fun r t => Marked v t.state.disk ∧ r.Avoids args.badVersions) u :=
    (Prog.Safe.conj (hpart hu ((checkForUpdate_within h args).mono fun _ => reports_of_checks))
      ((log_checkForUpdate h args u.log).traced (m := releaseTree))).mono (fun _ h => h.1)
        fun _ _ h => ⟨h.1, h.2.avoids hforce⟩
  apply Prog.Safe.bind (hcheck _ rfl (Traced.goOn u u.state.disk [⟨.listIn badDir, r⟩]) hu)
  rintro result w ⟨hw, hresult⟩
  apply Prog.Safe.bind (hpart hw (writeCheckState_within display result))
  rintro code x _ result' code' he
  obtain rfl : result = result' := by
    cases he
    rfl
  intro havailable m hm
  rw [List.mem_singleton]
  rintro rfl
  exact hresult havailable m hm hmem

/-- Once a version was recorded as bad, and directories can be read, no later check
reports it as available and no later install that is not forced switches to it. -/
theorem recorded_version_stays_refused {h : Host} {w0 w : World} {logs : List (List Entry)} (hw : Reach h w0 w logs)
    {log : List Entry} (hlog : log ∈ logs) {v : String} (hrec : Recorded v log) {cs : List Choice}
    (hcs : ∀ c ∈ cs, Reads c) :
    (∀ a result code, ((cliCheck h a).exec journal cs ⟨w, []⟩).1 = some (.ok (some result, code)) →
      result.outcome = .available → ∀ m, result.manifest = some m → m.version ≠ v) ∧
    ∀ cmd : Command, cmd.forced = false → ¬ SwitchedTo v (cmd.after h cs w).log := by
  obtain ⟨hv, hmarked⟩ := marked_of_reach hw hlog hrec
  constructor
  · intro a result code hexec havailable m hm
    have hsafe := ((safe_cliCheck (t := ⟨w, []⟩) hv hmarked h a).exec hmarked hcs).2 _ hexec
    exact fun he => hsafe result code rfl havailable m hm (List.mem_singleton.mpr he)
  · intro cmd hforced
    have hstart : Refused v ⟨w, []⟩ := ⟨hmarked, fun _ _ => List.not_mem_nil⟩
    have hsafe := safe_command_of_install (A := Reads) h cmd hstart (fun t o c ho _ ht => refused_none ho c ht)
      fun a stop t hforce ht => safe_unforced hv ht stop a (hforce.trans hforced)
    exact not_switchedTo (hsafe.exec hstart hcs).1.notRenamed

def badUpdate : Journal :=
  (Command.update false { pid := 7, manifest := sampleManifest }).after sampleHost ((List.range 40).map noRestart)
    sampleWorld

theorem badUpdate_version_stays_refused :
    ¬ SwitchedTo "1.1.0" ((Command.update false { pid := 8, manifest := sampleManifest }).after sampleHost
      (List.replicate 60 granted) badUpdate.state).log := by
  have hrec : badUpdate.log[36]? = some ⟨.replaceIn badDir "1.1.0.json.tmp.7" (markerName "1.1.0"), .ok ()⟩ := by rfl
  refine (recorded_version_stays_refused (.run _ _ .start) List.mem_cons_self
    ⟨"1.1.0.json.tmp.7", List.mem_of_getElem? hrec⟩ ?_).2 _ rfl
  intro c hc
  rw [List.eq_of_mem_replicate hc]
  rfl

end PiBuddyCam.Updater
