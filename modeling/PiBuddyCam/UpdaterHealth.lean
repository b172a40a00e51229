import PiBuddyCam.UpdaterActivation

/-! After the switch: the health verdict, the rollback, and the whole of
`install_update` with the updater's own switch, marker and pruning. -/
namespace PiBuddyCam.Updater

variable {A : Choice → Prop} {base : Loc → Prop}

attribute [local irreducible] UpdateState.encodedLength installStateDocument

variable {version : String}

theorem Activated.of_calm {t t' : Journal} (h : Activated base version t) (hc : Calm t t') :
    Activated base version t' := by
  obtain ⟨l, hl, htrust⟩ := h.previous
  obtain ⟨more, hmore⟩ := hc.log
  refine ⟨h.wellFormed.of_frame hc.frame, hc.phase.trans h.phase, ?_, l, ?_, ?_⟩
  · exact (hc.frame.node _ (not_not.mpr (Or.inl rfl))).trans h.current
  · exact (hc.frame.node _ (not_not.mpr (Or.inr (Or.inl rfl)))).trans hl
  · rw [hmore]
    exact htrust.append more

variable {t : Journal}

theorem safe_dropCurrent (ht : Inv base t) (hbase : base factoryApp) :
    (removeFile currentLink >>= fun _ => pure false).Keeps journal A (Inv base) t := by
  apply safe_removeFile
  · have hinv : Inv base (Traced.goOn t (t.state.disk.del currentLink) [⟨.remove currentLink, .ok ()⟩]) := by
      refine ⟨ht.wellFormed.of_drop, fun _ => Or.inl ?_⟩
      rw [goOn_disk, currentTarget_none (Disk.node_del_self _ _)]
      exact hbase
    exact ⟨hinv, hinv⟩
  · intro e
    have hc := calm_log t (e := ⟨.remove currentLink, .error e⟩) (fun p => by cases p <;> rfl)
    exact ⟨ht.of_calm hc, ht.of_calm hc⟩

theorem safe_readlink {β : Type} {I : Journal → Prop} {Q : β → Journal → Prop} {name : String}
    {f : Except String Loc → Run β}
    (hok : ∀ l, t.state.disk.node name = some (.link l) →
      GoesOn A I Q t t.state.disk ⟨.readlink name, .ok l⟩ (f (.ok l)))
    (herr : ∀ e, GoesOn A I Q t t.state.disk ⟨.readlink name, .error e⟩ (f (.error e))) :
    (readlink name >>= f).Safe journal A I Q t := by
  apply safe_sys
  intro c _
  simp only [worldStep]
  cases hn : t.state.disk.node name with
  | none => exact herr c.error
  | some n =>
    cases n with
    | dir files => exact herr c.error
    | file => exact herr c.error
    | link l =>
      simp only [Choice.read]
      split_ifs
      · exact herr c.error
      · exact hok l hn

theorem safe_rollback (h : Activated base version t) (hbase : base factoryApp)
    (pid : ℕ) : (rollback pid).Keeps journal A (Inv base) t := by
  apply safe_readlink
  · intro l hl
    have hc := calm_log t (e := ⟨.readlink previousLink, .ok l⟩) (fun p => by cases p <;> rfl)
    have hc' := hc.trans (calm_log _ (e := ⟨.look, t.state.disk⟩) (fun p => by cases p <;> rfl))
    have h' := h.of_calm hc'
    refine ⟨h.inv.of_calm hc, ?_⟩
    apply safe_look
    refine ⟨h'.inv, ?_⟩
    dsimp only
    split_ifs with hdir
    · have htrust : Trusted base t.log l := by
        obtain ⟨l', hl', htrust⟩ := h.previous
        rw [hl] at hl'
        rw [Node.link.inj (Option.some.inj hl')]
        exact htrust
      have hlive := h.wellFormed.previous.live hl
      apply (Prog.safe_bind _).mpr
      refine safe_swap h'.inv (isSome_of_node (n := .link l) hl) (Or.inl rfl) hlive ?_ ?_
      · intro t' hswap
        obtain ⟨more, hmore⟩ := hswap.log
        have hlive' := hswap.wellFormed.current.live hswap.node
        have hinv : Inv base t' := by
          refine ⟨hswap.wellFormed, fun _ => ?_⟩
          rw [currentTarget_link hswap.wellFormed hswap.node hlive', hmore, goOn_log, goOn_log, List.append_assoc,
            List.append_assoc]
          exact htrust.append _
        exact ⟨hinv, hinv⟩
      · intro e t' hcalm _
        exact h'.inv.of_calm hcalm
    · exact safe_dropCurrent h'.inv hbase
  · intro e
    have hc := calm_log t (e := ⟨.readlink previousLink, .error e⟩) (fun p => by cases p <;> rfl)
    have hc' := hc.trans (calm_log _ (e := ⟨.look, t.state.disk⟩) (fun p => by cases p <;> rfl))
    refine ⟨h.inv.of_calm hc, ?_⟩
    apply safe_look
    exact ⟨h.inv.of_calm hc', safe_dropCurrent (h.inv.of_calm hc') hbase⟩

theorem safe_pollHealth (h : Activated base version t) (deadline : ℚ)
    (attempts : ℕ) :
    (pollHealth version deadline attempts).Safe journal A (Inv base)
      (fun healthy t' => if healthy then Inv base t' else Activated base version t') t := by
  induction attempts generalizing t with
  | zero => exact h
  | succ n ih =>
    apply safe_read (fun _ => rfl)
    intro (r : Raw)
    by_cases hr : healthOk r = true
    · have hinv : Inv base (Traced.goOn t t.state.disk [⟨.effect (.healthCheck version), r⟩]) := by
        refine ⟨h.wellFormed, fun _ => Or.inr ⟨version, ?_, r, hr, ?_⟩⟩
        · rw [goOn_disk, currentTarget_link h.wellFormed h.current (h.wellFormed.current.live h.current)]
        · exact List.mem_append_right _ List.mem_cons_self
      refine ⟨hinv, ?_⟩
      rw [if_pos hr]
      exact hinv
    · have hc := calm_log t (e := ⟨.effect (.healthCheck version), r⟩)
        (fun p => by cases p <;> simp [phaseStep, hr])
      refine ⟨h.inv.of_calm hc, ?_⟩
      rw [if_neg hr]
      apply safe_read (fun _ => rfl)
      intro (now : ℚ)
      have hc' := hc.trans (calm_log _ (e := ⟨.clock, now⟩) (fun p => by cases p <;> rfl))
      refine ⟨h.inv.of_calm hc', ?_⟩
      split_ifs
      · exact h.of_calm hc'
      apply safe_read (fun _ => rfl)
      intro (slept : Bool)
      have hc'' := hc'.trans (calm_log _ (e := ⟨.sleep (min 5 (deadline-now)), slept⟩)
        (fun p => by cases p <;> rfl))
      refine ⟨h.inv.of_calm hc'', ?_⟩
      split_ifs
      · exact ih (h.of_calm hc'')
      · exact h.of_calm hc''

theorem quiet_restart (S : String → Prop) (version : String) : Op.Quiet S (.effect (.restartServices version)) :=
  ⟨fun _ hx => (nomatch hx), fun p _ => by cases p <;> rfl⟩

theorem recordBadRelease_quiet {S : String → Prop} (hS : S badDir) (pid : ℕ) (version : String) :
    (recordBadRelease pid version).Within (Op.Quiet S) :=
  recordBadRelease_within ⟨fun _ hx => hx ▸ hS, fun p _ => by cases p <;> rfl⟩
    (fun _ => ⟨fun _ hx => hx ▸ hS, fun p _ => by cases p <;> rfl⟩)
    (fun _ => ⟨fun _ hx => hx ▸ hS, fun p _ => by cases p <;> rfl⟩)
    (fun _ _ => ⟨fun _ hx => hx ▸ hS, fun p _ => by cases p <;> rfl⟩) pid version

theorem safe_quiet {α : Type} {p : Run α} (ht : Inv base t)
    (hp : p.Within (Op.Quiet (fun x => ¬ Kept t.state.disk x))) :
    p.Keeps journal A (Inv base) t :=
  (calm_of_within (Calm.refl t) hp).mono (fun _ => ht.of_calm) (fun _ _ => ht.of_calm)

theorem safe_rollBack (h : Activated base version t) (hbase : base factoryApp)
    (stop : Bool) (a : InstallArgs) (reason : Val) :
    (rollBack (ownEffects a.pid stop) a version reason).Keeps journal A (Inv base) t := by
  apply Prog.Safe.bind (safe_rollback h hbase a.pid)
  intro _ u hu
  apply safe_quiet hu
  refine .opBind (quiet_look _) fun d => ?_
  refine .bind (effect_within (quiet_restart _ _)) fun _ => ?_
  refine .bind (Prog.Within.bind ?_ fun _ => trivial) fun _ => trivial
  exact recordBadRelease_quiet (not_kept_of_dot hu.wellFormed (by decide)) a.pid version

theorem safe_activate (h : Activated base version t) (hbase : base factoryApp)
    (stop : Bool) (a : InstallArgs) (previousVersion : String) :
    (activate (ownEffects a.pid stop) a version previousVersion).Keeps journal A (Inv base) t := by
  apply safe_of_calm h.inv (calm_of_within (Calm.refl t) (effect_within (quiet_restart _ version)))
  rintro ⟨ok, reason⟩ u hu _
  dsimp only
  split_ifs
  · exact safe_rollBack (h.of_calm hu) hbase stop a _
  have hwait : (waitForHealth version).Safe journal A (Inv base)
      (fun healthy t' => if healthy then Inv base t' else Activated base version t') u := by
    apply safe_read (fun _ => rfl)
    intro (now : ℚ)
    have hc := hu.trans (calm_log _ (e := ⟨.clock, now⟩) (fun p => by cases p <;> rfl))
    exact ⟨h.inv.of_calm hc, safe_pollHealth (h.of_calm hc) _ _⟩
  apply Prog.Safe.bind hwait
  intro healthy v hv
  split_ifs with hhealthy
  · rw [hhealthy] at hv
    exact safe_rollBack hv hbase stop a _
  · rw [Bool.not_eq_false] at hhealthy
    rw [hhealthy, if_pos rfl] at hv
    apply Prog.Safe.bind (Q := fun _ => Inv base)
    · apply safe_of_calm hv (calm_defaultPrune hv.wellFormed _)
      intro _ w _ hw
      exact hw
    · intro _ w hw
      exact hw

theorem isRealDir_put (d : Disk) (name : String) (files : List String) :
    (d.put name (.dir files)).isRealDir name = true := by
  simp only [Disk.isRealDir, Disk.node_put_self]

variable {staging : String}

theorem isRealDir_step {o : Op} (ho : o.Prepares staging) (w : World) (c : Choice)
    (hw : w.disk.isRealDir staging = true) : (worldStep w o c).2.disk.isRealDir staging = true := by
  cases o with
  | removeIn st file =>
    obtain rfl : st = staging := ho
    simp only [worldStep, World.onDisk, Disk.changeFiles]
    split
    · rename_i files hfiles
      rcases attempt_cases w.disk (w.disk.put st (.dir (files.filter (· ≠ file)))) c.removeFails c
          (files.contains file) with ⟨_, h⟩ | h <;> rw [h]
      · exact isRealDir_put _ _ _
      · exact hw
    · exact hw
  | effect e =>
    simp only [worldStep]
    cases hst : e.staging with
    | none => exact hw
    | some st =>
      simp only [Disk.leaveIn]
      split_ifs
      · by_cases hne : staging = st
        · rw [hne]
          exact isRealDir_put _ _ _
        · rw [Disk.isRealDir, Disk.node_put_of_ne _ _ _ hne]
          exact hw
      · exact hw
  | look | freeSpace | isfile | getsize => exact hw
  | _ => exact ho.elim

/-- A journal that is calm against `t` and has the staging directory. -/
structure Staged (staging : String) (t u : Journal) : Prop where
  calm : Calm t u
  dir : u.state.disk.isRealDir staging = true

theorem staged_of_within {α : Type} {p : Run α} {t u : Journal} (hu : Staged staging t u)
    (hstaging : ¬ Kept t.state.disk staging) (hp : p.Within (Op.Prepares staging)) :
    p.Keeps journal A (Staged staging t) u := by
  have hcalm := calm_of_within (A := A) hu.calm (hp.mono fun o ho => quiet_of_prepares hstaging ho)
  have hdir := Prog.Within.safe (m := journal) (A := A) (J := fun v : Journal => v.state.disk.isRealDir staging = true)
    hp hu.dir (fun v o c ho _ hv => isRealDir_step ho v.state c hv)
  exact (hcalm.conj hdir).mono (fun _ h => ⟨h.1, h.2⟩) (fun _ _ h => ⟨h.1, h.2⟩)

theorem safe_makeStaging (ht : WellFormed t.state.disk) (version : String) :
    (makeStaging version).Safe journal A (Calm t)
      (fun r u => Calm t u ∧ ∀ staging, r = .ok staging →
        staging.toList.head? = some '.' ∧ u.state.disk.isRealDir staging = true) t := by
  have hstem : (stagingStem version).toList.head? = some '.' := by
    simp [stagingStem]
  apply calm_within (p := makedirs) (Calm.refl t)
    ⟨⟨fun _ hx => hx.elim, fun p _ => by cases p <;> rfl⟩, fun _ => trivial⟩
  rintro (e | _) u hu
  · exact ⟨hu, fun staging h => nomatch h⟩
  have hquiet : Op.Quiet (fun x => ¬ Kept t.state.disk x) (.mkdtemp (stagingStem version)) :=
    ⟨fun x hx => not_kept_of_dot ht (head?_of_isPrefix hx hstem), fun p _ => by cases p <;> rfl⟩
  have hcalm := calm_of_within (A := A) hu (p := mkdtemp (stagingStem version)) ⟨hquiet, fun _ => trivial⟩
  intro c hc
  refine ⟨(hcalm c hc).1, (hcalm c hc).2, fun staging hr => ?_⟩
  simp only [journal, Machine.traced, releaseTree, worldStep, World.onDisk, Disk.mkdtemp] at hr ⊢
  split_ifs at hr ⊢ with hfresh
  · obtain rfl := Except.ok.inj hr
    refine ⟨?_, isRealDir_put _ _ _⟩
    rw [String.toList_append]
    exact head?_of_isPrefix (List.prefix_append _ _) hstem

theorem safe_installFrom (ht : Inv base t) (hset : Settled t.log)
    (hbase : base factoryApp) (hdot : staging.toList.head? = some '.')
    (hdir : t.state.disk.isRealDir staging = true) (stop : Bool) (a : InstallArgs) (version : String) :
    (installFrom (ownEffects a.pid stop) a version staging).Keeps journal A (Inv base) t := by
  have hstaging := not_kept_of_dot ht.wellFormed hdot
  have hpart {p : Run (Except Stop Unit)} {u : Journal} (hu : Staged staging t u)
      (hp : p.Within (Op.Prepares staging)) :
      p.Safe journal A (Inv base) (fun _ => Staged staging t) u :=
    (staged_of_within hu hstaging hp).mono (fun _ h => ht.of_calm h.calm) fun _ _ h => h
  apply Prog.Safe.bind (hpart ⟨Calm.refl t, hdir⟩ (fetchBundle_within a.manifest staging))
  rintro (stop' | _) u hu
  · exact safe_quiet (ht.of_calm hu.calm) (stopped_within (quiet_look _) a version false stop')
  apply Prog.Safe.bind (hpart hu (buildRelease_within (ownEffects a.pid stop) a.manifest staging))
  rintro (stop' | _) u hu
  · exact safe_quiet (ht.of_calm hu.calm) (stopped_within (quiet_look _) a version stop stop')
  have hlook := hu.calm.trans (calm_log u (e := ⟨.look, u.state.disk⟩) (fun p => by cases p <;> rfl))
  apply safe_look
  refine ⟨ht.of_calm hlook, ?_⟩
  have hswitch : ((ownEffects a.pid stop).switch staging version).Safe journal A (Inv base)
      (fun raw t' => ∃ r, raw = .tuple [.other r.1, .str r.2] ∧ Switched base version r t')
      (Traced.goOn u u.state.disk [⟨.look, u.state.disk⟩]) := by
    apply Prog.Safe.bind (safe_switchRelease (ht.of_calm hlook) (hset.of_calm hlook) hdot hu.dir)
    intro r t' hr
    exact ⟨r, rfl, hr⟩
  apply Prog.Safe.bind hswitch
  rintro raw v ⟨⟨ok, reason⟩, rfl, hv⟩
  cases ok with
  | false =>
    exact safe_quiet hv.1 (stopped_within (quiet_look _) a version stop
      (.reason ((Val.str reason).orText "release activation failed")))
  | true =>
    apply Prog.Safe.bind (safe_activate (hv : Activated base version v) hbase stop a _)
    intro _ w hw
    exact hw

theorem safe_stagedInstall (ht : Inv base t) (hset : Settled t.log) (hbase : base factoryApp)
    (stop : Bool) (a : InstallArgs) (version : String) :
    (stagedInstall (ownEffects a.pid stop) a version).Keeps journal A (Inv base) t := by
  have hmake := (safe_makeStaging (A := A) ht.wellFormed version).mono
    (fun _ h => ht.of_calm h) (fun _ _ h => h)
  apply Prog.Safe.bind hmake
  rintro (e | staging) u ⟨hu, hstaging⟩
  · exact safe_quiet (ht.of_calm hu) (failed_within (quiet_look _) a version _)
  obtain ⟨hdot, hdir⟩ := hstaging staging rfl
  apply Prog.Safe.bind (safe_installFrom (ht.of_calm hu) (hset.of_calm hu) hbase hdot hdir stop a version)
  intro out v hv
  have hclean := cleanUp_within (P := Op.Quiet (fun x => ¬ Kept v.state.disk x)) (quiet_look _) (quiet_restart _)
    (removing_quiet (not_kept_of_dot hv.wellFormed hdot)) version out
  apply Prog.Safe.bind (safe_quiet hv hclean)
  intro _ w hw
  split
  · exact hw
  · exact hw

/-- `install_update` with the updater's own switch, marker and pruning keeps the
invariant at every cut. -/
theorem safe_installUpdate (ht : Inv base t) (hset : Settled t.log) (hbase : base factoryApp)
    (stop : Bool) (a : InstallArgs) :
    (installUpdate (ownEffects a.pid stop) a).Keeps journal A (Inv base) t := by
  unfold installUpdate
  split
  · exact safe_quiet ht (failed_within (quiet_look _) a _ _)
  split_ifs
  · exact safe_quiet ht (failed_within (quiet_look _) a _ _)
  have hrefused : (refusedVersions a.forceReinstall).Within (Op.Quiet (fun x => ¬ Kept t.state.disk x)) := by
    unfold refusedVersions
    split_ifs
    · trivial
    · exact readBadVersions_within.mono fun o ho => quiet_of_reports ho
  apply safe_of_calm ht (calm_of_within (Calm.refl t) hrefused)
  intro refused u hu hinv
  dsimp only
  split_ifs
  · exact safe_quiet hinv (failed_within (quiet_look _) a _ _)
  have hlook := calm_log u (e := ⟨.look, u.state.disk⟩) (fun p => by cases p <;> rfl)
  apply safe_look
  refine ⟨hinv.of_calm hlook, ?_⟩
  split_ifs
  · exact safe_stagedInstall (hinv.of_calm hlook) ((hset.of_calm hu).of_calm hlook) hbase stop a _
  · exact safe_quiet (hinv.of_calm hlook) (failed_within (quiet_look _) a _ _)

end PiBuddyCam.Updater
