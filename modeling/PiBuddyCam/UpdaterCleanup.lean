import PiBuddyCam.UpdaterPhases

/-! Recovery and pruning in a well-formed tree remove nothing that a link needs. -/
namespace PiBuddyCam.Updater

variable {A : Choice → Prop} {d : Disk}

theorem not_dangling (hd : WellFormed d) :
    (d.islink currentLink && !d.isdir (.entry currentLink)) = false := by
  rcases hd.current with hnone | ⟨l, hlink, hl⟩
  · simp only [Disk.islink, hnone, Bool.false_and]
  · rw [isdir_link hd hlink hl, Bool.not_true, Bool.and_false]

theorem symlinkVersion_link (hd : WellFormed d) {link version : String} (hok : LinkOk d link)
    (hlink : d.node link = some (.link (.entry version))) :
    symlinkVersion d link = version ∧ version ≠ "" := by
  have hl := hok.live hlink
  have hsem := hl.version.1
  refine ⟨?_, ?_⟩
  · simp only [symlinkVersion, isdir_link hd hlink hl, if_true, realpath_link hlink hl, Loc.basename, semverName, hsem]
  · rintro rfl
    exact absurd hsem (by decide)

theorem realpath_version {link version : String} (hok : LinkOk d link)
    (hlink : d.node link = some (.link (.entry version))) : d.realpath (.entry link) = .entry version :=
  realpath_link hlink (hok.live hlink)

theorem isVersionDir_ne {x : String} (hx : isVersionDir d x = true) :
    x ≠ currentLink ∧ x ≠ previousLink := by
  simp only [isVersionDir, Bool.and_eq_true, decide_eq_true_eq, ne_eq] at hx
  exact ⟨hx.1.1.1.1, hx.1.1.1.2⟩

theorem calm_versionDirs {t u : Journal} (hu : Calm t u) :
    versionDirs.Safe journal A (Calm t)
      (fun versions u' => Calm t u' ∧ ∀ x ∈ versions, x ≠ currentLink ∧ x ≠ previousLink) u := by
  apply calm_within (p := listdir) hu ⟨quiet_listdir _, fun _ => trivial⟩
  intro names u' hu'
  apply calm_look hu'
  intro u'' hu'' _
  refine ⟨hu'', fun x hx => ?_⟩
  exact isVersionDir_ne (List.mem_filter.mp hx).2

theorem calm_recoverInterrupted {t : Journal} (ht : WellFormed t.state.disk) (pid : ℕ) :
    (recoverInterrupted pid).Keeps journal A (Calm t) t := by
  apply calm_look (Calm.refl t)
  intro u hu hstate
  split_ifs
  · exact hu
  apply calm_within (p := listdir) hu ⟨quiet_listdir _, fun _ => trivial⟩
  rintro (e | entries) u hu
  · exact hu
  apply calm_look hu
  intro u' hu' hstate'
  have hwf : WellFormed u.state.disk := ht.of_frame hu.frame
  simp only [not_dangling hwf]
  -- no repair: what is left are the two loops
  have hstaging : (removeDirs isStagingDir entries).Within (Op.Quiet (fun x => ¬ Kept t.state.disk x)) :=
    removeDirs_within (quiet_look _) _ _ fun x _ d hx =>
      removing_quiet (not_kept_of_dot ht (head?_of_isStagingName (Bool.and_eq_true _ _ ▸ hx).1))
  apply calm_within hu' hstaging
  intro _ v hv
  apply Prog.Safe.bind (calm_versionDirs hv)
  rintro versions v' ⟨hv', hversions⟩
  refine calm_within hv' (removeDirs_within (quiet_look _) _ _ fun x hx d htest => removing_quiet ?_) fun _ w hw => hw
  intro hk
  have hk := (kept_of_frame hu.frame x).mpr hk
  refine absurd htest ?_
  rw [Bool.not_eq_true, Bool.not_eq_false', List.contains_iff_mem]
  have hmem (link : String) (hl : link = currentLink ∨ link = previousLink) (hok : LinkOk u.state.disk link)
      (hpoint : u.state.disk.node link = some (.link (.entry x))) :
      x ∈ [symlinkVersion u.state.disk currentLink, symlinkVersion u.state.disk previousLink].filter (· ≠ "") := by
    obtain ⟨hver, hne⟩ := symlinkVersion_link hwf hok hpoint
    refine List.mem_filter.mpr ⟨?_, by simpa using hne⟩
    rcases hl with rfl | rfl
    · rw [hver]
      exact List.mem_cons_self
    · rw [hver]
      exact List.mem_cons_of_mem _ List.mem_cons_self
  apply List.mem_append_left
  rcases hk with rfl | rfl | h | h
  · exact absurd rfl (hversions _ hx).1
  · exact absurd rfl (hversions _ hx).2
  · exact hmem _ (Or.inl rfl) hwf.current h
  · exact hmem _ (Or.inr rfl) hwf.previous h

theorem calm_defaultPrune {t : Journal} (ht : WellFormed t.state.disk) (kept : List String) :
    (defaultPrune kept).Keeps journal A (Calm t) t := by
  apply calm_look (Calm.refl t)
  intro u hu _
  refine calm_within (p := listdir) hu ⟨quiet_listdir _, fun _ => trivial⟩ ?_
  rintro (e | entries) u' hu'
  · exact hu'
  have hloop : ∀ x ∈ entries, ∀ d,
      (!(kept ++ (if activeVersion t.state.disk = "" then [] else [activeVersion t.state.disk]) ++
        (if t.state.disk.isdir (.entry previousLink) then [(t.state.disk.realpath (.entry previousLink)).basename]
          else [])).contains x && isVersionDir d x) = true → ¬ Kept t.state.disk x := by
    intro x _ d htest hk
    rw [Bool.and_eq_true, Bool.not_eq_true', ← Bool.not_eq_true, List.contains_iff_mem] at htest
    obtain ⟨hcur, hprev⟩ := isVersionDir_ne htest.2
    apply htest.1
    rcases hk with h | h | h | h
    · exact absurd h hcur
    · exact absurd h hprev
    · obtain ⟨hver, hne⟩ := symlinkVersion_link ht ht.current h
      have hactive : activeVersion t.state.disk = x := by
        rw [symlinkVersion] at hver
        split_ifs at hver
        · exact hver
        · exact absurd hver.symm hne
      rw [hactive, if_neg hne]
      exact List.mem_append_left _ (List.mem_append_right _ List.mem_cons_self)
    · obtain ⟨hver, hne⟩ := symlinkVersion_link ht ht.previous h
      have hdir : t.state.disk.isdir (.entry previousLink) = true := by
        rw [symlinkVersion] at hver
        split_ifs at hver with hdir
        · exact hdir
        · exact absurd hver.symm hne
      rw [if_pos hdir, realpath_version ht.previous h]
      exact List.mem_append_right _ List.mem_cons_self
  exact calm_of_within hu' (removeDirs_within (quiet_look _) _ entries
    fun x hx d htest => removing_quiet (hloop x hx d htest))

end PiBuddyCam.Updater
