import PiBuddyCam.UpdaterCalls
import PiBuddyCam.UpdaterCleanup

/-! The switch and what follows it, up to the end of `install_update`: the tree stays
well formed at every cut, and the active release is trusted whenever the log is settled. -/
namespace PiBuddyCam.Updater

variable {A : Choice → Prop} {base : Loc → Prop}

theorem calm_log (t : Journal) {e : Entry} (he : ∀ p, phaseStep p e = p) :
    Calm t (Traced.goOn t t.state.disk [e]) :=
  ⟨Frame.refl _ _, ⟨_, rfl⟩, (phase_append _ _).trans (he _)⟩

theorem tmpLink_ne_current (pid : ℕ) (link : String) (hlink : link = currentLink ∨ link = previousLink) :
    tmpLink pid link ≠ currentLink := by
  intro he
  have hlen := congrArg (fun s => s.toList.length) he
  rcases hlink with rfl | rfl <;> simp [tmpLink, currentLink, previousLink] at hlen

variable {target : Loc}

theorem phaseStep_quietSwap {tmp link : String} (htmp : tmp ≠ currentLink) {e : Entry}
    (he : QuietSwap tmp link target e) (p : Phase) : phaseStep p e = p := by
  rcases he with rfl | ⟨r, rfl⟩ | ⟨r, rfl⟩ | ⟨error, rfl⟩
  · cases p <;> rfl
  · cases p <;> rfl
  · cases p <;> simp [phaseStep, htmp]
  · cases p <;> simp [phaseStep, Except.toBool]

theorem phase_quietSwap {tmp link : String} (htmp : tmp ≠ currentLink) (log more : List Entry)
    (hmore : ∀ e ∈ more, QuietSwap tmp link target e) : phase (log ++ more) = phase log := by
  rw [phase_append]
  induction more generalizing log with
  | nil => rfl
  | cons e more ih =>
    have he := phaseStep_quietSwap htmp (hmore e List.mem_cons_self) (phase log)
    have ih := ih (log ++ [e]) (fun x hx => hmore x (List.mem_cons_of_mem e hx))
    rw [phase_append, List.foldl_cons, List.foldl_nil, he] at ih
    rw [List.foldl_cons, he, ih]

/-- The journal after a swap of `link`. -/
structure AfterSwap (pid : ℕ) (target : Loc) (link : String) (t t' : Journal) : Prop where
  wellFormed : WellFormed t'.state.disk
  frame : Frame (· = link) t.state.disk t'.state.disk
  node : t'.state.disk.node link = some (.link target)
  log : ∃ more, t'.log = t.log ++ more
  phase : phase t'.log = phaseStep (phase t.log) ⟨.replace (tmpLink pid link) link, .ok ()⟩

variable {t : Journal} {pid : ℕ}

theorem safe_swap {Q : Done → Journal → Prop} {link : String}
    (ht : Inv base t) (hrel : t.state.disk.releases.isSome = true) (hlink : link = currentLink ∨ link = previousLink)
    (hlive : Live t.state.disk target)
    (hok : ∀ t', AfterSwap pid target link t t' → Inv base t' ∧ Q (.ok ()) t')
    (herr : ∀ e t', Calm t t' → Frame (· = tmpLink pid link) t.state.disk t'.state.disk → Q (.error e) t') :
    (atomicSymlink pid target link).Safe journal A (Inv base) Q t := by
  have htmp := tmpLink_ne_current pid link hlink
  have hcalm (d : Disk) (more : List Entry) (hd : Frame (· = tmpLink pid link) t.state.disk d)
      (hmore : ∀ e ∈ more, QuietSwap (tmpLink pid link) link target e) : Calm t (Traced.goOn t d more) := by
    refine ⟨hd.mono ?_, ⟨more, rfl⟩, phase_quietSwap htmp _ _ hmore⟩
    rintro x rfl
    exact not_kept_of_tmpLink ht.wellFormed pid link hlink
  apply safe_atomicSymlink rfl hrel
  · intro d more hd hmore
    exact ht.of_calm (hcalm d more hd hmore)
  · intro d more hd hnode hmore _
    apply hok
    refine ⟨ht.wellFormed.of_swap hlink hlive hd hnode, hd, hnode, ⟨_, rfl⟩, ?_⟩
    rw [goOn_log, ← List.append_assoc, phase_append, phase_quietSwap htmp _ _ hmore]
    rfl
  · intro d more e hd hmore _
    exact herr e _ (hcalm d more hd hmore) hd

/-- The new version is active and `previous` leads to a trusted place. -/
structure Activated (base : Loc → Prop) (version : String) (t : Journal) : Prop where
  wellFormed : WellFormed t.state.disk
  phase : phase t.log = .active version
  current : t.state.disk.node currentLink = some (.link (.entry version))
  previous : ∃ l, t.state.disk.node previousLink = some (.link l) ∧ Trusted base t.log l

variable {version : String}

theorem Activated.inv (h : Activated base version t) : Inv base t :=
  ⟨h.wellFormed, fun hs => absurd h.phase (hs version)⟩

theorem not_kept_of_absent {d : Disk} (hd : WellFormed d) (hv : isSemver version = true)
    (hnew : ∀ files, d.node version ≠ some (.dir files)) : ¬ Kept d version := by
  have hlink (link : String) (hok : LinkOk d link) : d.node link ≠ some (.link (.entry version)) := by
    intro hl
    obtain ⟨files, hdir⟩ := (hok.live hl).version.2
    exact hnew files hdir
  rintro (h | h | h | h)
  · exact isSemver_ne hv (c := 'c') (x := currentLink) (by decide) (by decide) h
  · exact isSemver_ne hv (c := 'p') (x := previousLink) (by decide) (by decide) h
  · exact hlink _ hd.current h
  · exact hlink _ hd.previous h

theorem not_dir_of_not_exists {d : Disk} (h : d.exists? (.entry version) = false)
    (files : List String) : d.node version ≠ some (.dir files) := by
  intro hdir
  have hreal : d.realpath (.entry version) = .entry version := by
    simp only [Disk.realpath, Disk.follow, hdir]
  simp only [Disk.exists?, hreal, hdir] at h
  exact Bool.noConfusion h

def Switched (base : Loc → Prop) (version : String) (r : Bool × String) (t : Journal) : Prop :=
  if r.1 then Activated base version t else Inv base t ∧ Settled t.log

theorem safe_undo (ht : Inv base t) (hs : Settled t.log)
    (hnew : ¬ Kept t.state.disk version) (reason : String) :
    (rmtree version >>= fun _ => pure (false, reason)).Safe journal A (Inv base) (Switched base version) t := by
  apply safe_of_calm ht (calm_of_within (Calm.refl t) (rmtree_within (removing_quiet hnew)))
  intro _ t' hcalm ht'
  refine ⟨ht', fun v => ?_⟩
  rw [hcalm.phase]
  exact hs v

theorem Settled.of_calm {t t' : Journal} (hs : Settled t.log) (hc : Calm t t') : Settled t'.log := by
  intro v
  rw [hc.phase]
  exact hs v

theorem safe_swapLinks {l : Loc} (ht : Inv base t)
    (hphase : phase t.log = .renamed version) (hv : isSemver version = true)
    (hdir : ∃ files, t.state.disk.node version = some (.dir files)) (hnew : ¬ Kept t.state.disk version)
    (hlive : Live t.state.disk l) (htrust : Trusted base t.log l) (hne : l ≠ .entry version) :
    (swapLinks pid l version).Safe journal A (Inv base) (Switched base version) t := by
  obtain ⟨files, hdir⟩ := hdir
  have hset : Settled t.log := fun v => by rw [hphase]; exact Phase.noConfusion
  have hrel := isSome_of_node hdir
  apply (Prog.safe_bind _).mpr
  apply safe_swap ht hrel (Or.inr rfl) hlive
  · intro t1 h1
    have hphase1 : phase t1.log = .renamed version := by
      rw [h1.phase, hphase]
      rfl
    have hset1 : Settled t1.log := fun v => by rw [hphase1]; exact Phase.noConfusion
    have hcur1 : t1.state.disk.node currentLink = t.state.disk.node currentLink := h1.frame.node _ (by decide)
    obtain ⟨more, hmore⟩ := h1.log
    have ht1 : Inv base t1 := by
      refine ⟨h1.wellFormed, fun _ => ?_⟩
      rw [currentTarget_congr ht.wellFormed h1.wellFormed hcur1, hmore]
      exact (ht.trusted hset).append more
    have hdir1 : t1.state.disk.node version = some (.dir files) :=
      (h1.frame.node version (isSemver_ne hv (c := 'p') (by decide) (by decide))).trans hdir
    have hnew1 : ¬ Kept t1.state.disk version := by
      rintro (h | h | h | h)
      · exact hnew (Or.inl h)
      · exact hnew (Or.inr (Or.inl h))
      · exact hnew (Or.inr (Or.inr (Or.inl (hcur1 ▸ h))))
      · rw [h1.node] at h
        exact hne (Node.link.inj (Option.some.inj h))
    refine ⟨ht1, (Prog.safe_bind _).mpr ?_⟩
    apply safe_swap ht1 (isSome_of_node hdir1) (Or.inl rfl) (Or.inr ⟨version, files, rfl, hv, hdir1⟩)
    · intro t2 h2
      obtain ⟨more', hmore'⟩ := h2.log
      have hactive : Activated base version t2 := by
        refine ⟨h2.wellFormed, ?_, h2.node, l, ?_, ?_⟩
        · rw [h2.phase, hphase1]
          rfl
        · exact (h2.frame.node previousLink (by decide)).trans h1.node
        · rw [hmore', hmore, List.append_assoc]
          exact htrust.append _
      exact ⟨hactive.inv, hactive⟩
    · intro e t2 hcalm _
      exact safe_undo (ht1.of_calm hcalm) (hset1.of_calm hcalm)
        (fun hk => hnew1 ((kept_of_frame hcalm.frame version).mp hk)) _
  · intro e t1 hcalm _
    exact safe_undo (ht.of_calm hcalm) (hset.of_calm hcalm)
      (fun hk => hnew ((kept_of_frame hcalm.frame version).mp hk)) _

theorem safe_moveIntoPlace {staging version : String} (ht : Inv base t)
    (hset : Settled t.log) (hdot : staging.toList.head? = some '.') (hstaging : t.state.disk.isRealDir staging = true)
    (hv : isSemver version = true) (habsent : ∀ files, t.state.disk.node version ≠ some (.dir files)) :
    (moveIntoPlace pid staging version (currentTarget t.state.disk)).Safe journal A (Inv base)
      (Switched base version) t := by
  have hkeptS := not_kept_of_dot ht.wellFormed hdot
  have hkeptV := not_kept_of_absent ht.wellFormed hv habsent
  apply safe_rename
  · intro n hn _
    obtain ⟨files, rfl⟩ : ∃ files, n = .dir files := by
      rw [Disk.isRealDir, hn] at hstaging
      cases n with
      | dir files => exact ⟨files, rfl⟩
      | link l => exact nomatch hstaging
      | file => exact nomatch hstaging
    have hframe : Frame (fun x => ¬ Kept t.state.disk x) t.state.disk
        ((t.state.disk.del staging).put version (.dir files)) :=
      ((frame_del _ _).mono fun x hx => hx ▸ hkeptS).trans ((frame_put _ _ _).mono fun x hx => hx ▸ hkeptV)
    have hwf := ht.wellFormed.of_frame hframe
    have htrust := (ht.trusted hset).append [⟨.rename staging version, .ok ()⟩]
    have hphase : phase (t.log ++ [⟨.rename staging version, .ok ()⟩]) = .renamed version := by
      rw [phase_append]
      cases phase t.log <;> rfl
    have hinv : Inv base (Traced.goOn t ((t.state.disk.del staging).put version (.dir files))
        [⟨.rename staging version, .ok ()⟩]) := by
      refine ⟨hwf, fun _ => ?_⟩
      rw [goOn_disk, currentTarget_of_frame ht.wellFormed hframe]
      exact htrust
    refine ⟨hinv, safe_swapLinks hinv hphase hv ⟨files, Disk.node_put_self _ _ _⟩ ?_ ?_ htrust ?_⟩
    · exact fun hk => hkeptV ((kept_of_frame hframe version).mp hk)
    · rw [goOn_disk, ← currentTarget_of_frame ht.wellFormed hframe]
      exact live_currentTarget hwf
    · intro he
      rcases live_currentTarget ht.wellFormed with hf | ⟨v, files', hl, _, hdir⟩
      · rw [hf] at he
        exact nomatch he
      · rw [hl] at he
        rw [Loc.entry.inj he] at hdir
        exact habsent files' hdir
  · intro e
    have hc := calm_log t (e := ⟨.rename staging version, .error e⟩) (fun p => by cases p <;> rfl)
    exact ⟨ht.of_calm hc, ht.of_calm hc, hset.of_calm hc⟩

theorem safe_switchRelease {staging version : String} (ht : Inv base t)
    (hset : Settled t.log) (hdot : staging.toList.head? = some '.') (hstaging : t.state.disk.isRealDir staging = true) :
    (switchRelease pid staging version).Safe journal A (Inv base) (Switched base version) t := by
  unfold switchRelease
  split_ifs with hsem
  · exact ⟨ht, hset⟩
  have hv : isSemver version = true := Bool.not_eq_false _ ▸ hsem
  have hlook (p : Phase) : phaseStep p ⟨.look, t.state.disk⟩ = p := by cases p <;> rfl
  -- nothing changes before the rename
  have hc1 := calm_log t hlook
  apply safe_look
  refine ⟨ht.of_calm hc1, ?_⟩
  split_ifs with hexists
  · exact ⟨ht.of_calm hc1, hset.of_calm hc1⟩
  apply safe_read (fun c => chmod_state _ staging c)
  intro (r : Done)
  have hc2 := hc1.trans (calm_log _ (e := ⟨.chmod staging, r⟩) fun p => by cases p <;> rfl)
  refine ⟨ht.of_calm hc2, ?_⟩
  cases r with
  | error e => exact ⟨ht.of_calm hc2, hset.of_calm hc2⟩
  | ok _ =>
    have hc3 := hc2.trans (calm_log _ hlook)
    apply safe_look
    exact ⟨ht.of_calm hc3, safe_moveIntoPlace (ht.of_calm hc3) (hset.of_calm hc3) hdot hstaging hv
      (not_dir_of_not_exists (Bool.not_eq_true _ ▸ hexists))⟩

end PiBuddyCam.Updater
