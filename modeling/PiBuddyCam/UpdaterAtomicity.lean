import PiBuddyCam.UpdaterReliable

/-! How `switch_release` and the rollback may end when removals and reads succeed. -/
namespace PiBuddyCam.Updater

variable {pid : ℕ} {t u : Journal}

def IsTmp (pid : ℕ) (x : String) : Prop := x = tmpLink pid previousLink ∨ x = tmpLink pid currentLink

theorem IsTmp.head? {x : String} (h : IsTmp pid x) : ∃ c, x.toList.head? = some c ∧ isDigit c = false ∧ c ≠ '.' := by
  rcases h with rfl | rfl
  · exact ⟨'p', head?_tmpLink pid (by decide), by decide, by decide⟩
  · exact ⟨'c', head?_tmpLink pid (by decide), by decide, by decide⟩

theorem IsTmp.ne_semver {x version : String} (h : IsTmp pid x) (hv : isSemver version = true) : version ≠ x := by
  obtain ⟨c, hc, hdigit, _⟩ := h.head?
  exact isSemver_ne hv hc hdigit

theorem IsTmp.ne_hidden {x y : String} (h : IsTmp pid x) (hy : y.toList.head? = some '.') : y ≠ x := by
  rintro rfl
  obtain ⟨c, hc, _, hdot⟩ := h.head?
  rw [hy] at hc
  exact hdot (Option.some.inj hc).symm

theorem IsTmp.ne_link {x link : String} (h : IsTmp pid x) (hlink : link = currentLink ∨ link = previousLink) :
    link ≠ x := by
  rintro rfl
  rcases h with h | h
  · have hlen := congrArg (fun s => s.toList.length) h
    rcases hlink with rfl | rfl <;> simp [tmpLink, currentLink, previousLink] at hlen
  · have hlen := congrArg (fun s => s.toList.length) h
    rcases hlink with rfl | rfl <;> simp [tmpLink, currentLink, previousLink] at hlen

variable {link : String}

theorem tmpLink_inj_link (hlink : link = currentLink ∨ link = previousLink)
    (h : tmpLink pid link = tmpLink pid currentLink) : link = currentLink := by
  rcases hlink with rfl | rfl
  · rfl
  · have hp := head?_tmpLink pid (show previousLink.toList.head? = some 'p' by decide)
    have hc := head?_tmpLink pid (show currentLink.toList.head? = some 'c' by decide)
    rw [h, hc] at hp
    exact absurd (Option.some.inj hp) (by decide)

theorem swapFailure_of_quiet {target target' : Loc} {e : Entry}
    (hlink : link = currentLink ∨ link = previousLink) (he : QuietSwap (tmpLink pid link) link target e)
    (hf : SwapFailure (tmpLink pid currentLink) currentLink target' e) :
    link = currentLink ∧ SwapFailure (tmpLink pid link) link target e := by
  obtain ⟨error, hf⟩ := hf
  rcases he with rfl | ⟨r, rfl⟩ | ⟨r, rfl⟩ | ⟨error', rfl⟩
  · rcases hf with h | h <;> cases h
  · rcases hf with h | h
    · have htmp := (Op.symlink.inj (congrArg Sigma.fst h)).2
      have hl := tmpLink_inj_link hlink htmp
      subst hl
      cases h
      exact ⟨rfl, error, Or.inl rfl⟩
    · cases h
  · rcases hf with h | h <;> cases h
  · rcases hf with h | h
    · cases h
    · exact ⟨(Op.replace.inj (congrArg Sigma.fst h)).2, error', Or.inr rfl⟩

theorem ensures_swap {target : Loc} {Q : Done → Journal → Prop}
    (hlink : link = currentLink ∨ link = previousLink) (hrel : t.state.disk.releases.isSome = true)
    (hok : ∀ u, Frame (· = link) t.state.disk u.state.disk →
      u.state.disk.node link = some (.link target) →
      (CurrentSwapFailed pid u.log ↔ CurrentSwapFailed pid t.log) → Q (.ok ()) u)
    (herr : ∀ e u, Frame (· = tmpLink pid link) t.state.disk u.state.disk →
      (CurrentSwapFailed pid u.log ↔ CurrentSwapFailed pid t.log ∨ link = currentLink) → Q (.error e) u) :
    Ensures (atomicSymlink pid target link) Q t := by
  apply safe_atomicSymlink rfl hrel
  · exact fun _ _ _ _ => trivial
  · intro d more hd hnode hmore hnofail
    refine ⟨trivial, hok _ hd hnode ?_⟩
    rw [goOn_log, swapFailed_append, or_iff_left]
    rintro ⟨e, he, target', hf⟩
    rcases List.mem_append.mp he with he | he
    · exact hnofail e he (swapFailure_of_quiet hlink (hmore e he) hf).2
    · rw [List.mem_singleton.mp he] at hf
      obtain ⟨error, h | h⟩ := hf
      · cases h
      · obtain rfl := (Op.replace.inj (congrArg Sigma.fst h)).2
        cases h
  · intro d more e hd hmore hfail
    refine herr e _ hd ?_
    rw [goOn_log, swapFailed_append]
    refine or_congr_right ⟨?_, ?_⟩
    · rintro ⟨x, hx, target', hf⟩
      exact (swapFailure_of_quiet hlink (hmore x hx) hf).1
    · rintro rfl
      obtain ⟨x, hx, hf⟩ := hfail
      exact ⟨x, hx, target, hf⟩

theorem isRealDir_of_frame {d d' : Disk} {S : String → Prop} {x : String} (h : Frame S d d') (hx : ¬ S x)
    (hd : d.isRealDir x = true) : d'.isRealDir x = true := by
  unfold Disk.isRealDir at hd ⊢
  rw [h.node x hx]
  exact hd

theorem isSome_of_isRealDir {d : Disk} {x : String} (h : d.isRealDir x = true) : d.releases.isSome = true := by
  obtain ⟨files, hfiles⟩ := isRealDir_iff.mp h
  exact isSome_of_node hfiles

/-- How `switch_release` may end. -/
inductive SwitchEnd (pid : ℕ) (staging version : String) (t : Journal) : Bool → Journal → Prop
  | undone {u : Journal} : Steady pid (fun x => IsTmp pid x ∨ x = staging) t u →
      u.state.disk.isRealDir staging = true ∨ u.state.disk.node staging = none →
      SwitchEnd pid staging version t false u
  | half {u : Journal} :
      Frame (fun x => (IsTmp pid x ∨ x = staging) ∨ x = previousLink) t.state.disk u.state.disk →
      CurrentSwapFailed pid u.log → u.state.disk.node staging = none →
      u.state.disk.node previousLink = some (.link (currentTarget t.state.disk)) →
      SwitchEnd pid staging version t false u
  | done {u : Journal} : currentTarget t.state.disk ≠ .entry version → WellFormed u.state.disk →
      (CurrentSwapFailed pid u.log ↔ CurrentSwapFailed pid t.log) →
      u.state.disk.node previousLink = some (.link (currentTarget t.state.disk)) →
      u.state.disk.node currentLink = some (.link (.entry version)) → SwitchEnd pid staging version t true u

theorem node_of_mayReplace {files : List String} {n : Option Node} (h : (Node.dir files).mayReplace n = true)
    (hn : ∀ files', n ≠ some (.dir files')) : n = none := by
  cases n with
  | none => rfl
  | some n =>
    cases n with
    | dir files' => exact absurd rfl (hn files')
    | link l => exact nomatch h
    | file => exact nomatch h

variable {staging version : String}

/-- The two swaps, seen from before the staging directory was renamed. -/
theorem ensures_swapLinks {t₀ : Journal} (ht : WellFormed t₀.state.disk) (hdot : staging.toList.head? = some '.')
    (hv : isSemver version = true) (hnew : t₀.state.disk.node version = none)
    (hmoved : Steady pid (fun x => x = staging ∨ x = version) t₀ t) (hgone : t.state.disk.node staging = none)
    (hdir : t.state.disk.isRealDir version = true) :
    Ensures (swapLinks pid (currentTarget t₀.state.disk) version)
      (fun r => SwitchEnd pid staging version t₀ r.1) t := by
  have hprev : version ≠ previousLink := isSemver_ne hv (c := 'p') (by decide) (by decide)
  have hne : staging ≠ version := (isSemver_ne hv hdot (by decide)).symm
  have habsent (files : List String) : t₀.state.disk.node version ≠ some (.dir files) := hnew ▸ nofun
  have hkept : Frame (fun x => ¬ Kept t₀.state.disk x) t₀.state.disk t.state.disk := by
    refine hmoved.frame.mono ?_
    rintro x (rfl | rfl)
    · exact not_kept_of_dot ht hdot
    · exact not_kept_of_absent ht hv habsent
  have hwf := ht.of_frame hkept
  have hlive : Live t.state.disk (currentTarget t₀.state.disk) := by
    rw [← currentTarget_of_frame ht hkept]
    exact live_currentTarget hwf
  have hother : currentTarget t₀.state.disk ≠ .entry version := by
    intro he
    have hlive := live_currentTarget ht
    rw [he] at hlive
    obtain ⟨files', hdir⟩ := hlive.version.2
    exact habsent files' hdir
  -- after a failed swap the new directory is removed
  have hundo {T : String → Prop} {t1 : Journal} (h1 : Frame T t.state.disk t1.state.disk) (hT : ¬ T version)
      (hT' : ¬ T staging) : Ensures (rmtree version) (fun _ u =>
        Frame (fun x => T x ∨ x = staging) t₀.state.disk u.state.disk ∧
        (CurrentSwapFailed pid u.log ↔ CurrentSwapFailed pid t1.log) ∧ u.state.disk.node staging = none ∧
        ∀ x, x ≠ version → u.state.disk.node x = t1.state.disk.node x) t1 := by
    refine (rmtree_steady pid (isRealDir_of_frame h1 hT hdir)).post ?_
    rintro _ u ⟨hu, hremoved⟩
    refine ⟨Frame.narrow (S := fun x => (T x ∨ x = staging) ∨ x = version) ?_ ?_, hu.swaps, ?_, hu.frame.node⟩
    · exact ((hmoved.frame.mono fun x hx => hx.imp_left Or.inr).trans (h1.mono fun x hx => Or.inl (Or.inl hx))).trans
        (hu.frame.mono fun x hx => Or.inr hx)
    · rintro x (h | rfl) hx
      · exact absurd h hx
      · exact hremoved.trans hnew.symm
    · rw [hu.frame.node staging hne, h1.node staging hT', hgone]
  apply (Prog.safe_bind _).mpr
  apply ensures_swap (Or.inr rfl) (isSome_of_isRealDir hdir)
  · intro t1 hframe1 hnode1 hswaps1
    have hdir1 := isRealDir_of_frame hframe1 hprev hdir
    obtain ⟨files, hfiles⟩ := isRealDir_iff.mp hdir1
    have hwf1 := hwf.of_swap (Or.inr rfl) hlive hframe1 hnode1
    apply (Prog.safe_bind _).mpr
    apply ensures_swap (Or.inl rfl) (isSome_of_isRealDir hdir1)
    · intro t2 hframe2 hnode2 hswaps2
      have hwf2 := hwf1.of_swap (Or.inl rfl) (Or.inr ⟨version, files, rfl, hv, hfiles⟩) hframe2 hnode2
      exact .done hother hwf2 ((hswaps2.trans hswaps1).trans hmoved.swaps)
        ((hframe2.node previousLink (by decide)).trans hnode1) hnode2
    · intro e t2 hframe2 hswaps2
      have hframe : Frame (fun x => IsTmp pid x ∨ x = previousLink) t.state.disk t2.state.disk :=
        (hframe1.mono fun x hx => Or.inr hx).trans (hframe2.mono fun x hx => Or.inl (Or.inr hx))
      refine .bind (hundo hframe ?_ ?_) ?_
      · exact fun h => h.elim (fun h => h.ne_semver hv rfl) hprev
      · rintro (h | rfl)
        · exact h.ne_hidden hdot rfl
        · exact absurd hdot (by decide)
      rintro _ u ⟨hu, hswaps, hst, hsame⟩
      refine .half (hu.mono fun x hx => or_right_comm.mp hx) (hswaps.mpr (hswaps2.mpr (Or.inr rfl))) hst ?_
      rw [hsame previousLink hprev.symm, hframe2.node previousLink (IsTmp.ne_link (Or.inr rfl) (Or.inr rfl)), hnode1]
  · intro e t1 hframe1 hswaps1
    apply Prog.Safe.bind (hundo (T := IsTmp pid) (hframe1.mono fun x hx => Or.inl hx)
      (fun h => h.ne_semver hv rfl) (fun h => h.ne_hidden hdot rfl))
    rintro _ u ⟨hu, hswaps, hst, _⟩
    refine .undone ⟨hu, ?_⟩ (Or.inr hst)
    rw [hswaps, hswaps1, or_iff_left (by decide), hmoved.swaps]

theorem ensures_moveIntoPlace (ht : WellFormed t.state.disk)
    (hdot : staging.toList.head? = some '.') (hstaging : t.state.disk.isRealDir staging = true)
    (hv : isSemver version = true) (habsent : ∀ files, t.state.disk.node version ≠ some (.dir files)) :
    Ensures (moveIntoPlace pid staging version (currentTarget t.state.disk))
      (fun r => SwitchEnd pid staging version t r.1) t := by
  obtain ⟨files, hfiles⟩ := isRealDir_iff.mp hstaging
  have hne : staging ≠ version := (isSemver_ne hv hdot (by decide)).symm
  apply safe_rename
  · intro n hn hmay
    obtain rfl : n = .dir files := Option.some.inj (hn.symm.trans hfiles)
    have hframe : Frame (fun x => x = staging ∨ x = version) t.state.disk
        ((t.state.disk.del staging).put version (.dir files)) :=
      ((frame_del _ _).mono fun x hx => Or.inl hx).trans ((frame_put _ _ _).mono fun x hx => Or.inr hx)
    have hswaps := swapFailed_log pid (o := .rename staging version) trivial t.log (.ok ())
    refine ⟨trivial, ensures_swapLinks ht hdot hv (node_of_mayReplace hmay habsent) ⟨hframe, hswaps⟩ ?_
      (isRealDir_put _ _ _)⟩
    rw [goOn_disk, Disk.node_put_of_ne _ _ _ hne, Disk.node_del_self]
  · intro e
    exact ⟨trivial, SwitchEnd.undone (steady_log _ (o := .rename staging version) trivial _ t _) (Or.inl hstaging)⟩

theorem SwitchEnd.of_steady {ok : Bool} {v : Journal}
    (h : SwitchEnd pid staging version u ok v) (ht : WellFormed t.state.disk) (hdot : staging.toList.head? = some '.')
    (hu : Steady pid (· = staging) t u) : SwitchEnd pid staging version t ok v := by
  have htarget : currentTarget u.state.disk = currentTarget t.state.disk := by
    refine currentTarget_of_frame ht (hu.frame.mono ?_)
    rintro x rfl
    exact not_kept_of_dot ht hdot
  cases h with
  | undone hv hst => exact .undone ((hu.mono fun x hx => Or.inr hx).trans hv) hst
  | half hframe hfailed hst hprev =>
    exact .half ((hu.frame.mono fun x hx => Or.inl (Or.inr hx)).trans hframe) hfailed hst (htarget ▸ hprev)
  | done hother hwf hsw hprev hcur => exact .done (htarget ▸ hother) hwf (hsw.trans hu.swaps) (htarget ▸ hprev) hcur

theorem ensures_switchRelease (ht : WellFormed t.state.disk)
    (hdot : staging.toList.head? = some '.') (hstaging : t.state.disk.isRealDir staging = true) :
    Ensures (switchRelease pid staging version) (fun r => SwitchEnd pid staging version t r.1) t := by
  unfold switchRelease
  split_ifs with hsem
  · exact SwitchEnd.undone (Steady.refl _ _ _) (Or.inl hstaging)
  have hv : isSemver version = true := Bool.not_eq_false _ ▸ hsem
  have hundone {u : Journal} (hu : Steady pid (· = staging) t u) (hst : u.state.disk.isRealDir staging = true) :
      SwitchEnd pid staging version t false u := .undone (hu.mono fun x hx => Or.inr hx) (Or.inl hst)
  have h1 := steady_log pid (o := .look) trivial t.state.disk t (· = staging)
  apply safe_look
  refine ⟨trivial, ?_⟩
  split_ifs with hexists
  · exact hundone h1 hstaging
  apply safe_read (fun c => chmod_state _ staging c)
  intro (r : Done)
  have h2 := h1.trans (steady_log _ (o := .chmod staging) trivial r _ _)
  refine ⟨trivial, ?_⟩
  cases r with
  | error e => exact hundone h2 hstaging
  | ok _ =>
    have h3 := h2.trans (steady_log _ (o := .look) trivial t.state.disk _ _)
    have hmove (u : Journal) (hu : u.state.disk = t.state.disk) :
        Ensures (moveIntoPlace pid staging version (currentTarget t.state.disk))
          (fun r => SwitchEnd pid staging version u r.1) u := by
      rw [← hu] at ht hstaging hexists ⊢
      exact ensures_moveIntoPlace ht hdot hstaging hv (not_dir_of_not_exists (Bool.not_eq_true _ ▸ hexists))
    apply safe_look
    exact ⟨trivial, (hmove _ (by exact rfl)).post fun r u hu => hu.of_steady ht hdot h3⟩

/-- The new version is active and `previous` leads to `l`. -/
structure Launched (pid : ℕ) (version : String) (l : Loc) (t : Journal) : Prop where
  wellFormed : WellFormed t.state.disk
  noFailure : ¬ CurrentSwapFailed pid t.log
  previous : t.state.disk.node previousLink = some (.link l)
  current : t.state.disk.node currentLink = some (.link (.entry version))

/-- The rollback led back to `l`, or its swap failed and the new version is still active. -/
structure RolledBack (pid : ℕ) (version : String) (l : Loc) (t : Journal) : Prop where
  wellFormed : WellFormed t.state.disk
  target : (¬ CurrentSwapFailed pid t.log ∧ currentTarget t.state.disk = l) ∨
    (CurrentSwapFailed pid t.log ∧ currentTarget t.state.disk = .entry version)

variable {version : String} {l : Loc}

theorem Launched.of_steady (h : Launched pid version l t) (hu : Steady pid (fun x => ¬ Kept t.state.disk x) t u) :
    Launched pid version l u where
  wellFormed := h.wellFormed.of_frame hu.frame
  noFailure := fun hf => h.noFailure (hu.swaps.mp hf)
  previous := (hu.frame.node _ (not_not.mpr (Or.inr (Or.inl rfl)))).trans h.previous
  current := (hu.frame.node _ (not_not.mpr (Or.inl rfl))).trans h.current

theorem RolledBack.of_steady (h : RolledBack pid version l t) (hu : Steady pid (fun x => ¬ Kept t.state.disk x) t u) :
    RolledBack pid version l u where
  wellFormed := h.wellFormed.of_frame hu.frame
  target := by
    rw [hu.swaps, currentTarget_of_frame h.wellFormed hu.frame]
    exact h.target

theorem ensures_rollback (h : Launched pid version l t) :
    Ensures (rollback pid) (fun _ => RolledBack pid version l) t := by
  have hlive := h.wellFormed.previous.live h.previous
  apply safe_sys (o := .readlink previousLink)
  intro c hc
  have hread : worldStep t.state (.readlink previousLink) c = (.ok l, t.state) := by
    simp only [worldStep, h.previous, Choice.read, hc.2, Bool.false_eq_true, if_false]
  rw [hread]
  refine ⟨trivial, ?_⟩
  apply safe_look
  refine ⟨trivial, ?_⟩
  dsimp only
  rw [if_pos (isdir_live h.wellFormed hlive)]
  have hlook : Steady pid (fun _ => False) t _ :=
    (steady_log _ (o := .readlink previousLink) trivial (Except.ok l : Except String Loc) t _).trans
      (steady_log _ (o := .look) trivial t.state.disk _ _)
  apply (Prog.safe_bind _).mpr
  apply ensures_swap (Or.inl rfl) (by exact isSome_of_node h.previous)
  · intro u hframe hnode hswaps
    have hwf : WellFormed u.state.disk := h.wellFormed.of_swap (Or.inl rfl) hlive hframe hnode
    refine ⟨hwf, Or.inl ⟨?_, currentTarget_link hwf hnode (hwf.current.live hnode)⟩⟩
    exact fun hf => h.noFailure (hlook.swaps.mp (hswaps.mp hf))
  · intro e u hframe hswaps
    have hkept : Frame (fun x => ¬ Kept t.state.disk x) t.state.disk u.state.disk := by
      refine hframe.mono ?_
      rintro x rfl
      exact not_kept_of_tmpLink h.wellFormed pid currentLink (Or.inl rfl)
    refine ⟨h.wellFormed.of_frame hkept, Or.inr ⟨hswaps.mpr (Or.inr rfl), ?_⟩⟩
    rw [currentTarget_of_frame h.wellFormed hkept]
    exact currentTarget_link h.wellFormed h.current (h.wellFormed.current.live h.current)

end PiBuddyCam.Updater
