import PiBuddyCam.UpdaterAtomicity

/-! `install_update` is all or nothing exactly when no swap of `current` fails, one case
apart. -/
namespace PiBuddyCam.Updater

variable {pid : ℕ} {version : String} {l : Loc} {t u : Journal} {a : InstallArgs}

theorem recordBadRelease_steady {S : String → Prop} (hS : S badDir) (pid : ℕ) (version : String) :
    (recordBadRelease pid version).Within (Op.IsSteady S) :=
  recordBadRelease_within ⟨fun _ hx => hx ▸ hS, trivial⟩ (fun _ => ⟨fun _ hx => hx ▸ hS, trivial⟩)
    (fun _ => ⟨fun _ hx => hx ▸ hS, trivial⟩) (fun _ _ => ⟨fun _ hx => hx ▸ hS, trivial⟩) pid version

theorem steady_effect (S : String → Prop) {e : Effect} (he : e.staging = none) : Op.IsSteady S (.effect e) := by
  refine ⟨fun x hx => ?_, trivial⟩
  rw [Op.MayTouch, he] at hx
  cases hx

theorem ensures_within (pid : ℕ) {α β : Type} {S : String → Prop} {p : Run α} {f : α → Run β} {Q : β → Journal → Prop}
    (hp : p.Within (Op.IsSteady S)) (hf : ∀ a u, Steady pid S t u → Ensures (f a) Q u) : Ensures (p >>= f) Q t :=
  Prog.Safe.bind (steady_of_within (Steady.refl pid S t) hp) hf

theorem ensures_rollBack (stop : Bool) (h : Launched a.pid version l t) (reason : Val) :
    Ensures (rollBack (ownEffects a.pid stop) a version reason)
      (fun r u => r.outcome = .rolledBack ∧ RolledBack a.pid version l u) t := by
  apply Prog.Safe.bind (ensures_rollback h)
  intro _ u hu
  apply ensures_within _ (p := look) ⟨steady_look (fun x => ¬ Kept u.state.disk x), fun _ => trivial⟩
  intro d v hv
  have hv := hu.of_steady hv
  apply ensures_within _ (effect_within (steady_effect (fun x => ¬ Kept v.state.disk x) rfl))
  intro _ w hw
  have hw := hv.of_steady hw
  apply ensures_within a.pid (S := fun x => ¬ Kept w.state.disk x)
  · exact .bind (recordBadRelease_steady (not_kept_of_dot hw.wellFormed (by decide)) a.pid version)
      fun _ => trivial
  · intro _ x hx
    exact ⟨rfl, hw.of_steady hx⟩

def Activation (pid : ℕ) (version : String) (l : Loc) (r : InstallResult) (u : Journal) : Prop :=
  (r.outcome = .installed ∧ ¬ CurrentSwapFailed pid u.log) ∨ (r.outcome = .rolledBack ∧ RolledBack pid version l u)

theorem ensures_activate (stop : Bool) (h : Launched a.pid version l t) (previousVersion : String) :
    Ensures (activate (ownEffects a.pid stop) a version previousVersion) (Activation a.pid version l) t := by
  apply ensures_within _ (effect_within (steady_effect (fun x => ¬ Kept t.state.disk x) rfl))
  rintro ⟨ok, reason⟩ u hu
  have hu := h.of_steady hu
  dsimp only
  split_ifs
  · exact (ensures_rollBack stop hu _).post fun _ _ h => Or.inr h
  apply ensures_within a.pid (S := fun x => ¬ Kept u.state.disk x)
  · exact waitForHealth_within (fun _ => steady_effect _ rfl) ⟨fun _ hx => hx.elim, trivial⟩
      (fun _ => ⟨fun _ hx => hx.elim, trivial⟩) version
  intro healthy v hv
  have hv := hu.of_steady hv
  split_ifs
  · exact (ensures_rollBack stop hv _).post fun _ _ h => Or.inr h
  apply ensures_within a.pid (S := fun _ => True)
  · refine .bind (defaultPrune_within ?_ ?_ (fun x _ => removing_steady trivial) _) fun _ => trivial
    · exact ⟨fun _ _ => trivial, trivial⟩
    · exact ⟨fun _ _ => trivial, trivial⟩
  · intro _ w hw
    exact Or.inl ⟨rfl, fun hf => hv.noFailure (hw.swaps.mp hf)⟩

def Attempt.outcome (out : Attempt) : InstallOutcome :=
  match out.result with
  | .ok r => r.outcome
  | .error _ => .failed

/-- How the `try` block may end, seen from before the staging directory was made. -/
inductive TryEnd (pid : ℕ) (staging version : String) (t : Journal) : InstallOutcome → Journal → Prop
  | stopped {u : Journal} : SwitchEnd pid staging version t false u → TryEnd pid staging version t .failed u
  | installed {u : Journal} : ¬ CurrentSwapFailed pid u.log → TryEnd pid staging version t .installed u
  | rolledBack {u : Journal} : currentTarget t.state.disk ≠ .entry version →
      RolledBack pid version (currentTarget t.state.disk) u → TryEnd pid staging version t .rolledBack u

variable {staging : String}

theorem ensures_failed (pid : ℕ) (a : InstallArgs) (version : String) (reason : Val) (t : Journal) :
    Ensures (failed a version reason) (fun r u => r.outcome = .failed ∧ Steady pid (fun _ => False) t u) t :=
  safe_look ⟨trivial, rfl, steady_log _ (o := .look) trivial _ t _⟩

theorem ensures_stopped (pid : ℕ) (a : InstallArgs) (version : String) (quiesced : Bool) (stop : Stop) (t : Journal) :
    Ensures (stopped a version quiesced stop)
      (fun out u => out.outcome = .failed ∧ Steady pid (fun _ => False) t u) t := by
  cases stop with
  | reason value => exact .bind (ensures_failed pid a version value t) fun r u h => h
  | raised error => exact ⟨rfl, Steady.refl _ _ _⟩

theorem steady_of_prepares {o : Op} (ho : o.Prepares staging) : o.IsSteady (· = staging) := by
  refine ⟨(quiet_of_prepares (S := (· = staging)) rfl ho).only, ?_⟩
  cases o with
  | symlink => exact ho
  | replace => exact ho
  | _ => trivial

theorem ensures_prepare {α : Type} {p : Run α} (hu : Steady pid (· = staging) t u)
    (hdir : u.state.disk.isRealDir staging = true) (hp : p.Within (Op.Prepares staging)) :
    Ensures p (fun _ v => Steady pid (· = staging) t v ∧ v.state.disk.isRealDir staging = true) u := by
  have hsteady := steady_of_within hu (hp.mono fun _ => steady_of_prepares)
  have hdir := Prog.Within.safe (m := journal) (A := Reliable)
    (J := fun v : Journal => v.state.disk.isRealDir staging = true) hp hdir
    (fun v o c ho _ hv => isRealDir_step ho v.state c hv)
  exact (Prog.Safe.conj hsteady hdir).mono (fun _ _ => trivial) fun _ _ h => h

theorem SwitchEnd.stays {v : Journal} (h : SwitchEnd pid staging version t false u)
    (hv : Steady pid (fun _ => False) u v) : SwitchEnd pid staging version t false v := by
  have hnode (x : String) : v.state.disk.node x = u.state.disk.node x := hv.frame.node x id
  cases h with
  | undone hu hst =>
    refine .undone (hu.trans (hv.mono fun x hx => hx.elim)) ?_
    simp only [Disk.isRealDir, hnode] at hst ⊢
    exact hst
  | half hframe hfailed hst hprev =>
    exact .half (hframe.trans (hv.frame.mono fun x hx => hx.elim)) (hv.swaps.mpr hfailed) ((hnode _).trans hst)
      ((hnode _).trans hprev)

theorem ensures_installFrom (ht : WellFormed t.state.disk) (hfail : ¬ CurrentSwapFailed a.pid t.log)
    (hdot : staging.toList.head? = some '.') (hu : Steady a.pid (· = staging) t u)
    (hdir : u.state.disk.isRealDir staging = true) (stop : Bool) :
    Ensures (installFrom (ownEffects a.pid stop) a version staging)
      (fun out => TryEnd a.pid staging version t out.outcome) u := by
  have hgiveUp {v : Journal} (hv : SwitchEnd a.pid staging version t false v) (quiesced : Bool) (stop' : Stop) :
      Ensures (stopped a version quiesced stop') (fun out => TryEnd a.pid staging version t out.outcome) v := by
    refine (ensures_stopped a.pid a version quiesced stop' v).post ?_
    rintro out w ⟨hout, hw⟩
    rw [hout]
    exact .stopped (hv.stays hw)
  have hundone {v : Journal} (hv : Steady a.pid (· = staging) t v) (hst : v.state.disk.isRealDir staging = true) :
      SwitchEnd a.pid staging version t false v := .undone (hv.mono fun x hx => Or.inr hx) (Or.inl hst)
  apply Prog.Safe.bind (ensures_prepare hu hdir (fetchBundle_within a.manifest staging))
  rintro (stop' | _) v ⟨hv, hdir⟩
  · exact hgiveUp (hundone hv hdir) _ _
  apply Prog.Safe.bind (ensures_prepare hv hdir (buildRelease_within (ownEffects a.pid stop) a.manifest staging))
  rintro (stop' | _) v ⟨hv, hdir⟩
  · exact hgiveUp (hundone hv hdir) _ _
  have hlook := hv.trans (steady_log _ (o := .look) trivial v.state.disk v _)
  have hwf : WellFormed v.state.disk := by
    refine ht.of_frame (hv.frame.mono ?_)
    rintro x rfl
    exact not_kept_of_dot ht hdot
  apply safe_look
  refine ⟨trivial, ?_⟩
  have hswitch : Ensures ((ownEffects a.pid stop).switch staging version)
      (fun raw w => ∃ r : Bool × String, raw = .tuple [.other r.1, .str r.2] ∧ SwitchEnd a.pid staging version t r.1 w)
      (Traced.goOn v v.state.disk [⟨.look, v.state.disk⟩]) := by
    apply Prog.Safe.bind (ensures_switchRelease (t := Traced.goOn v v.state.disk [⟨.look, v.state.disk⟩]) hwf hdot hdir)
    intro r w hr
    exact ⟨r, rfl, hr.of_steady ht hdot hlook⟩
  apply Prog.Safe.bind hswitch
  rintro raw w ⟨⟨ok, reason⟩, rfl, hw⟩
  cases ok with
  | false => exact hgiveUp hw _ (.reason ((Val.str reason).orText "release activation failed"))
  | true =>
    obtain - | - | ⟨hother, hwf', hswaps, hprev, hcur⟩ := hw
    have hlaunched : Launched a.pid version (currentTarget t.state.disk) w :=
      ⟨hwf', fun hf => hfail (hswaps.mp hf), hprev, hcur⟩
    apply Prog.Safe.bind (ensures_activate stop hlaunched _)
    rintro r x (⟨hr, hx⟩ | ⟨hr, hx⟩)
    · have hend : TryEnd a.pid staging version t r.outcome x := hr ▸ .installed hx
      exact hend
    · have hend : TryEnd a.pid staging version t r.outcome x := hr ▸ .rolledBack hother hx
      exact hend

/-- How `install_update` may end. -/
inductive InstallEnd (pid : ℕ) (version : String) (t : Journal) : InstallOutcome → Journal → Prop
  | undone {u : Journal} : Steady pid (IsTmp pid) t u → InstallEnd pid version t .failed u
  | half {u : Journal} : Frame (fun x => IsTmp pid x ∨ x = previousLink) t.state.disk u.state.disk →
      CurrentSwapFailed pid u.log → u.state.disk.node previousLink = some (.link (currentTarget t.state.disk)) →
      InstallEnd pid version t .failed u
  | installed {u : Journal} : ¬ CurrentSwapFailed pid u.log → InstallEnd pid version t .installed u
  | rolledBack {u : Journal} : currentTarget t.state.disk ≠ .entry version →
      RolledBack pid version (currentTarget t.state.disk) u → InstallEnd pid version t .rolledBack u

theorem exists_isRealDir {d : Disk} {x : String} (h : d.isRealDir x = true) : d.exists? (.entry x) = true := by
  obtain ⟨files, hfiles⟩ := isRealDir_iff.mp h
  have hreal : d.realpath (.entry x) = .entry x := by
    simp only [Disk.realpath, Disk.follow, hfiles]
  simp only [Disk.exists?, hreal, hfiles]

theorem ensures_cleanUp (pid : ℕ) (version : String) (out : Attempt)
    (h : t.state.disk.isRealDir staging = true ∨ t.state.disk.node staging = none) :
    Ensures (cleanUp version staging out) (fun _ u => Steady pid (· = staging) t u ∧ u.state.disk.node staging = none) t := by
  have hremove {u : Journal} (hu : Steady pid (fun _ => False) t u) :
      Ensures (do
        let d ← look
        if d.exists? (.entry staging) then rmtree staging : Run Unit)
        (fun _ v => Steady pid (· = staging) t v ∧ v.state.disk.node staging = none) u := by
    have hnode : u.state.disk.node staging = t.state.disk.node staging := hu.frame.node staging id
    have hlook := (hu.mono fun x hx => hx.elim).trans (steady_log _ (o := .look) trivial u.state.disk u (· = staging))
    apply safe_look
    refine ⟨trivial, ?_⟩
    rcases h with hdir | hnone
    · have hdir : u.state.disk.isRealDir staging = true := by
        rw [Disk.isRealDir, hnode]
        exact hdir
      rw [if_pos (exists_isRealDir hdir)]
      refine (rmtree_steady pid (by exact hdir)).post ?_
      rintro _ v ⟨hv, hgone⟩
      exact ⟨hlook.trans hv, hgone⟩
    · have hreal : u.state.disk.realpath (.entry staging) = .entry staging := by
        simp only [Disk.realpath, Disk.follow, hnode, hnone]
      have hexists : u.state.disk.exists? (.entry staging) = false := by
        simp only [Disk.exists?, hreal, hnode, hnone]
      rw [hexists]
      exact ⟨hlook, hnode.trans hnone⟩
  unfold cleanUp
  split_ifs
  · apply ensures_within _ (p := look) ⟨steady_look (fun _ => False), fun _ => trivial⟩
    intro d u hu
    apply ensures_within _ (effect_within (steady_effect (fun _ => False) rfl))
    intro _ v hv
    exact hremove (hu.trans hv)
  · exact hremove (Steady.refl _ _ _)

theorem ensures_makeStaging (pid : ℕ) (version : String) (t : Journal) :
    Ensures (makeStaging version)
      (fun r u => (∃ e, r = .error e ∧ Steady pid (fun _ => False) t u) ∨
        ∃ staging, r = .ok staging ∧ staging.toList.head? = some '.' ∧ t.state.disk.node staging = none ∧
          Steady pid (· = staging) t u ∧ u.state.disk.isRealDir staging = true) t := by
  apply ensures_within pid (p := makedirs) (S := fun _ => False)
    ⟨⟨fun _ hx => hx.elim, trivial⟩, fun _ => trivial⟩
  rintro (e | _) u hu
  · exact Or.inl ⟨e, rfl, hu⟩
  intro c _
  refine ⟨trivial, ?_⟩
  simp only [journal, Machine.traced, releaseTree, worldStep, World.onDisk, Disk.mkdtemp]
  split_ifs with hfresh
  · rw [Bool.and_eq_true, Bool.and_eq_true, Option.isNone_iff_eq_none] at hfresh
    refine Or.inr ⟨_, rfl, ?_, ?_, ⟨?_, ?_⟩, isRealDir_put _ _ _⟩
    · rw [String.toList_append]
      exact head?_of_isPrefix (List.prefix_append _ _) (by simp [stagingStem])
    · exact (hu.frame.node _ id).symm.trans hfresh.1.2
    · exact (hu.frame.mono fun x hx => hx.elim).trans (frame_put _ _ _)
    · exact (swapFailed_log _ (o := .mkdtemp (stagingStem version)) trivial u.log _).trans hu.swaps
  · refine Or.inl ⟨_, rfl, hu.frame, ?_⟩
    exact (swapFailed_log _ (o := .mkdtemp (stagingStem version)) trivial u.log _).trans hu.swaps

theorem ensures_finish (hnew : t.state.disk.node staging = none) (hdot : staging.toList.head? = some '.')
    (out : Attempt) (hu : TryEnd pid staging version t out.outcome u) :
    Ensures (cleanUp version staging out) (fun _ => InstallEnd pid version t out.outcome) u := by
  revert hu
  generalize out.outcome = outcome
  intro hu
  rcases hu with (⟨hu, hst⟩ | ⟨hframe, hfailed, hst, hprev⟩) | hu | ⟨hother, hu⟩
  · refine (ensures_cleanUp pid version out hst).post ?_
    rintro _ v ⟨hv, hgone⟩
    refine .undone ⟨(hu.frame.trans (hv.frame.mono fun x hx => Or.inr hx)).narrow ?_, hv.swaps.trans hu.swaps⟩
    rintro x (h | rfl) hx
    · exact absurd h hx
    · exact hgone.trans hnew.symm
  · refine (ensures_cleanUp pid version out (Or.inr hst)).post ?_
    rintro _ v ⟨hv, hgone⟩
    refine .half ((hframe.trans (hv.frame.mono fun x hx => Or.inl (Or.inr hx))).narrow ?_) (hv.swaps.mpr hfailed) ?_
    · rintro x ((h | rfl) | h) hx
      · exact absurd (Or.inl h) hx
      · exact hgone.trans hnew.symm
      · exact absurd (Or.inr h) hx
    · rw [hv.frame.node previousLink, hprev]
      rintro rfl
      exact absurd hdot (by decide)
  · refine (steady_of_within (Steady.refl pid (fun _ => True) u) (cleanUp_within ⟨fun _ _ => trivial, trivial⟩
      (fun _ => steady_effect _ rfl) (removing_steady trivial) version out)).post ?_
    intro _ v hv
    exact .installed fun hf => hu (hv.swaps.mp hf)
  · have hkept : ¬ Kept u.state.disk staging := not_kept_of_dot hu.wellFormed hdot
    refine (steady_of_within (Steady.refl pid (fun x => ¬ Kept u.state.disk x) u) (cleanUp_within (steady_look _)
      (fun _ => steady_effect _ rfl) (removing_steady hkept) version out)).post ?_
    intro _ v hv
    exact .rolledBack hother (hu.of_steady hv)

theorem ensures_stagedInstall (ht : WellFormed t.state.disk) (hfail : ¬ CurrentSwapFailed a.pid t.log) (stop : Bool) :
    Ensures (stagedInstall (ownEffects a.pid stop) a version)
      (fun r => InstallEnd a.pid version t r.outcome) t := by
  apply Prog.Safe.bind (ensures_makeStaging a.pid version t)
  rintro r u (⟨e, rfl, hu⟩ | ⟨staging, rfl, hdot, hnew, hu, hdir⟩)
  · refine (ensures_failed a.pid a version _ u).post ?_
    rintro r v ⟨hr, hv⟩
    rw [hr]
    exact .undone ((hu.trans hv).mono fun x hx => hx.elim)
  apply Prog.Safe.bind (ensures_installFrom ht hfail hdot hu hdir stop)
  intro out v hv
  apply Prog.Safe.bind (ensures_finish hnew hdot out hv)
  intro _ w hw
  unfold Attempt.outcome at hw
  cases hresult : out.result with
  | ok r =>
    rw [hresult] at hw
    exact hw
  | error e =>
    rw [hresult] at hw
    exact hw

theorem InstallEnd.of_steady {outcome : InstallOutcome} {v : Journal} (h : InstallEnd pid version u outcome v)
    (ht : WellFormed t.state.disk) (hu : Steady pid (fun _ => False) t u) : InstallEnd pid version t outcome v := by
  have htarget : currentTarget u.state.disk = currentTarget t.state.disk :=
    currentTarget_of_frame ht (hu.frame.mono fun x hx => hx.elim)
  cases h with
  | undone hv => exact .undone ((hu.mono fun x hx => hx.elim).trans hv)
  | half hframe hfailed hprev =>
    exact .half ((hu.frame.mono fun x hx => hx.elim).trans hframe) hfailed (htarget ▸ hprev)
  | installed hv => exact .installed hv
  | rolledBack hother hv => exact .rolledBack (htarget ▸ hother) (htarget ▸ hv)

theorem ensures_installUpdate (ht : WellFormed t.state.disk) (hfail : ¬ CurrentSwapFailed a.pid t.log) (stop : Bool) :
    Ensures (installUpdate (ownEffects a.pid stop) a)
      (fun r => InstallEnd a.pid a.manifest.version t r.outcome) t := by
  have hgiveUp {u : Journal} (hu : Steady a.pid (fun _ => False) t u) (version : String) (reason : Val) :
      Ensures (failed a version reason) (fun r => InstallEnd a.pid a.manifest.version t r.outcome) u := by
    refine (ensures_failed a.pid a version reason u).post ?_
    rintro r v ⟨hr, hv⟩
    rw [hr]
    exact .undone ((hu.trans hv).mono fun x hx => hx.elim)
  have hrefused : (refusedVersions a.forceReinstall).Within (Op.IsSteady (fun _ => False)) := by
    unfold refusedVersions
    split_ifs
    · trivial
    · exact ⟨⟨fun _ hx => hx.elim, trivial⟩, fun _ => trivial⟩
  unfold installUpdate
  split
  · exact hgiveUp (Steady.refl _ _ _) _ _
  rename_i version hversion
  obtain rfl : a.manifest.version = version := by
    unfold manifestVersion at hversion
    split_ifs at hversion
    exact Option.some.inj hversion
  split_ifs
  · exact hgiveUp (Steady.refl _ _ _) _ _
  apply ensures_within a.pid hrefused
  intro refused u hu
  dsimp only
  split_ifs
  · exact hgiveUp hu _ _
  have hlook := hu.trans (steady_log _ (o := .look) trivial u.state.disk u _)
  apply safe_look
  refine ⟨trivial, ?_⟩
  split_ifs
  · refine .post (ensures_stagedInstall (t := Traced.goOn u u.state.disk [⟨.look, u.state.disk⟩]) ?_ ?_ stop) ?_
    · exact ht.of_frame (hu.frame.mono fun x hx => hx.elim)
    · exact fun hf => hfail (hlook.swaps.mp hf)
    · intro r v hv
      exact hv.of_steady ht hlook
  · exact hgiveUp hlook _ _

/-- After a failure both links, the releases and the staging directories are as before;
after a rollback the release that was active before is active again. -/
def AllOrNothing (version : String) (d : Disk) (outcome : InstallOutcome) (d' : Disk) : Prop :=
  (outcome = .failed → d'.node currentLink = d.node currentLink ∧ d'.node previousLink = d.node previousLink ∧
    (∀ v, isSemver v = true → d'.node v = d.node v) ∧ ∀ x, isStagingName x = true → d'.node x = d.node x) ∧
  (outcome = .rolledBack → currentTarget d' ≠ .entry version ∧ currentTarget d' = currentTarget d)

def sampleUpdate (choices : ℕ → Choice) : InstallResult × Journal :=
  (installUpdate (ownEffects 7 false) { pid := 7, manifest := sampleManifest }).run journal choices ⟨sampleWorld, []⟩

def failAt (k : ℕ) (choices : ℕ → Choice) (n : ℕ) : Choice := { choices n with fails := n == k }

def swapDone : Entry → Bool
  | ⟨.symlink _ _, r⟩ | ⟨.replace _ _, r⟩ => Except.toBool (r : Done)
  | _ => true

end PiBuddyCam.Updater
