import PiBuddyCam.UpdaterSweep

/-! `recover_interrupted` twice in a row. The second run finds nothing left to do, unless the first has removed
the directory that `current` led to. -/
namespace PiBuddyCam.Updater

structure Tidy (d : Disk) : Prop where
  staging : ∀ x, isStagingDir d x = false
  versions : ∀ x, isVersionDir d x = true → x ∈ referenced d
  current : dangling d = false

theorem mem_referenced {d : Disk} {x : String} :
    x ∈ referenced d ↔ x ≠ "" ∧ ∃ link, (link = currentLink ∨ link = previousLink) ∧ symlinkVersion d link = x := by
  rw [referenced, List.mem_filter, List.mem_pair, decide_eq_true_eq, and_comm]
  refine and_congr_right fun _ => ⟨?_, ?_⟩
  · rintro (h | h)
    · exact ⟨currentLink, Or.inl rfl, h.symm⟩
    · exact ⟨previousLink, Or.inr rfl, h.symm⟩
  · rintro ⟨link, rfl | rfl, h⟩
    · exact Or.inl h.symm
    · exact Or.inr h.symm

theorem semverName_eq {y x : String} (hne : x ≠ "") : semverName y = x ↔ isSemver y = true ∧ y = x := by
  unfold semverName
  split_ifs with h
  · rw [and_iff_right h]
  · exact iff_of_false (fun he => hne he.symm) fun he => h he.1

theorem isVersionDir_ne_empty {d : Disk} {x : String} (h : isVersionDir d x = true) : isSemver x = true ∧ x ≠ "" := by
  simp only [isVersionDir, Bool.and_eq_true] at h
  refine ⟨h.2, ?_⟩
  rintro rfl
  exact absurd h.2 (by decide)

section Tidy

variable {d s d' : Disk} {kept : List String}

theorem symlinkVersion_of_stays {link x : String} (hne : x ≠ "") (h : symlinkVersion d link = x)
    (hpath : d.isdir (.entry link) = true → d'.realpath (.entry link) = d.realpath (.entry link))
    (hout : d'.outsideDirs = d.outsideDirs) (hx : d'.isRealDir x = true) : symlinkVersion d' link = x := by
  rw [symlinkVersion] at h
  split_ifs at h with hdir
  · have hdir' : d'.isdir (.entry link) = true := by
      rw [isdir_iff, hpath hdir]
      rw [isdir_iff] at hdir
      cases hreal : d.realpath (.entry link) with
      | outside path =>
        rw [hreal] at hdir
        exact dirAt_outside hout hdir
      | entry y =>
        rw [hreal, Loc.basename, semverName_eq hne] at h
        rw [h.2]
        exact hx
    rw [symlinkVersion, if_pos hdir', hpath hdir]
    exact h
  · exact absurd h.symm hne

variable {x : String}

theorem Swept.node_of_stays (h : Swept kept d s) (hx : isSwept d kept x = false) : s.node x = d.node x := by
  rw [h.node x, if_neg (Bool.eq_false_iff.mp hx)]

theorem Swept.isSwept_eq_false (h : Swept kept d s) (hx : s.isRealDir x = true) :
    isSwept d kept x = false := by
  by_contra hswept
  rw [Bool.not_eq_false] at hswept
  have hnone := h.node x
  rw [if_pos hswept] at hnone
  exact node_ne_none_of_isRealDir hx hnone

theorem Swept.staging (h : Swept kept d s) (x : String) : isStagingDir s x = false := by
  by_contra hx
  rw [Bool.not_eq_false] at hx
  have hstays := h.isSwept_eq_false (Bool.and_eq_true _ _ ▸ hx : _ ∧ _).2
  rw [isStagingDir_congr (h.node_of_stays hstays)] at hx
  rw [isSwept, hx, Bool.true_or] at hstays
  cases hstays

theorem Swept.version (h : Swept kept d s) (hx : isVersionDir s x = true) :
    isVersionDir d x = true ∧ x ∈ kept := by
  have hstays := h.isSwept_eq_false (isRealDir_of_isVersionDir hx)
  rw [isVersionDir_congr (h.node_of_stays hstays)] at hx
  rw [isSwept, Bool.or_eq_false_iff, hx, Bool.true_and, Bool.not_eq_false', List.contains_iff_mem] at hstays
  exact ⟨hx, hstays.2⟩

theorem Swept.of_version (h : Swept kept d s) (hx : isVersionDir d x = true) (hmem : x ∈ kept) :
    s.node x = d.node x := by
  apply h.node_of_stays
  cases hstaging : isStagingDir d x with
  | true =>
    rw [isVersionDir_of_isStagingDir hstaging] at hx
    cases hx
  | false => rw [isSwept, hstaging, List.contains_iff_mem.mpr hmem, Bool.not_true, Bool.and_false, Bool.or_false]

theorem Swept.tidy (h : Swept (referenced d) d s) (hdangling : dangling d = false)
    (hlive : ∀ name, d.realpath (.entry currentLink) = .entry name → isStagingDir d name = false) : Tidy s := by
  have hpath (l : Loc) : s.realpath l = d.realpath l := follow_congr h.sameLink 40 l
  refine ⟨h.staging, fun x hx => ?_, ?_⟩
  · obtain ⟨_, hmem⟩ := h.version hx
    obtain ⟨hne, link, hlink, hversion⟩ := mem_referenced.mp hmem
    exact mem_referenced.mpr ⟨hne, link, hlink,
      symlinkVersion_of_stays hne hversion (fun _ => hpath _) h.outsideDirs (isRealDir_of_isVersionDir hx)⟩
  · rw [dangling, Bool.and_eq_false_iff, Bool.not_eq_false'] at hdangling ⊢
    refine hdangling.imp (fun hlink => ?_) fun hdir => ?_
    · rw [← Bool.not_eq_true, islink_iff] at hlink ⊢
      rintro ⟨target, ht⟩
      exact hlink ⟨target, (h.sameLink currentLink target).mp ht⟩
    · rw [isdir_iff, hpath]
      have hat := (isdir_iff _ _).mp hdir
      cases hreal : d.realpath (.entry currentLink) with
      | outside path =>
        rw [hreal] at hat
        exact dirAt_outside h.outsideDirs hat
      | entry y =>
        -- the directory that `current` leads to is no staging directory, and as a version it is referenced
        rw [hreal] at hat
        have hstays : isSwept d (referenced d) y = false := by
          rw [isSwept, hlive y hreal, Bool.false_or, ← Bool.not_eq_true, Bool.and_eq_true, Bool.not_eq_true',
            ← Bool.not_eq_true, List.contains_iff_mem]
          rintro ⟨hversion, hnot⟩
          obtain ⟨hsemver, hne⟩ := isVersionDir_ne_empty hversion
          refine hnot (mem_referenced.mpr ⟨hne, currentLink, Or.inl rfl, ?_⟩)
          rw [symlinkVersion, if_pos hdir, hreal, Loc.basename, semverName_eq hne]
          exact ⟨hsemver, rfl⟩
        exact (isRealDir_congr (h.node_of_stays hstays)).trans hat

theorem Swept.dangling (h : Swept kept d s) {name : String} (hreal : d.realpath (.entry currentLink) = .entry name)
    (hname : isStagingDir d name = true) : dangling s = true := by
  have hne : name ≠ currentLink := by
    rintro rfl
    exact absurd (Bool.and_eq_true _ _ ▸ hname : _ ∧ _).1 (by decide)
  rw [Updater.dangling, Bool.and_eq_true, Bool.not_eq_true', islink_iff]
  refine ⟨?_, ?_⟩
  · by_contra hnot
    have hstay := follow_entry_stay (d := d) (x := currentLink)
      (fun target ht => hnot ⟨target, (h.sameLink currentLink target).mpr ht⟩) 40
    rw [Disk.realpath, hstay] at hreal
    exact hne (Loc.entry.inj hreal).symm
  · rw [← Bool.not_eq_true, isdir_iff, Disk.realpath, follow_congr h.sameLink, ← Disk.realpath, hreal]
    intro hdir
    have hstays := h.isSwept_eq_false hdir
    rw [isSwept, hname, Bool.true_or] at hstays
    cases hstays

theorem Repaired.tidy {newest : Option String} (hdangling : dangling d = true) (hnewest : Newest d newest)
    (h : Swept (referenced d ++ newest.toList) d s) (hframe : Frame (· = currentLink) s d')
    (hcurrent : Repaired s newest d') : Tidy d' := by
  have hversion {x : String} (hx : isVersionDir d' x = true) : isVersionDir s x = true := by
    rw [← isVersionDir_congr (hframe.node x (isVersionDir_ne hx).1)]
    exact hx
  have hout : d'.outsideDirs = d.outsideDirs := hframe.outsideDirs.trans h.outsideDirs
  -- where the repaired link leads
  have hlead {version : String} (hlink : d'.node currentLink = some (.link (.entry version)))
      (hdir : d'.isRealDir version = true) : d'.realpath (.entry currentLink) = .entry version := by
    obtain ⟨files, hfiles⟩ := isRealDir_iff.mp hdir
    rw [Disk.realpath, follow_entry_link hlink]
    exact follow_entry_stay (fun target ht => by rw [hfiles] at ht; cases ht) 39
  refine ⟨fun x => ?_, fun x hx => ?_, ?_⟩
  · by_cases hx : x = currentLink
    · rw [hx, isStagingDir, show isStagingName currentLink = false by decide, Bool.false_and]
    · rw [isStagingDir_congr (hframe.node x hx)]
      exact h.staging x
  · obtain ⟨_, hmem⟩ := h.version (hversion hx)
    obtain ⟨_, hne⟩ := isVersionDir_ne_empty hx
    rcases List.mem_append.mp hmem with hmem | hmem
    · obtain ⟨_, link, rfl | rfl, hlink⟩ := mem_referenced.mp hmem
      · rw [symlinkVersion, if_neg] at hlink
        · exact absurd hlink.symm hne
        · rw [Updater.dangling, Bool.and_eq_true, Bool.not_eq_true'] at hdangling
          exact Bool.eq_false_iff.mp hdangling.2
      · -- the chain from `previous` does not pass `current`, the only link that changed
        have hpath (hdir : d.isdir (.entry previousLink) = true) :
            d'.realpath (.entry previousLink) = d.realpath (.entry previousLink) := by
          refine follow_avoid hdangling (fun y hy target => ?_) le_rfl ((isdir_iff _ _).mp hdir)
          rw [hframe.node y hy]
          exact h.sameLink y target
        exact mem_referenced.mpr ⟨hne, previousLink, Or.inr rfl,
          symlinkVersion_of_stays hne hlink hpath hout (isRealDir_of_isVersionDir hx)⟩
    · obtain rfl := Option.mem_toList.mp hmem
      cases hcurrent with
      | release version hsome hlink =>
        cases hsome
        have hreal := hlead hlink (isRealDir_of_isVersionDir hx)
        have hdir : d'.isdir (.entry currentLink) = true := by
          rw [isdir_iff, hreal]
          exact isRealDir_of_isVersionDir hx
        refine mem_referenced.mpr ⟨hne, currentLink, Or.inl rfl, ?_⟩
        rw [symlinkVersion, if_pos hdir, hreal, Loc.basename, semverName_eq hne]
        exact ⟨(isVersionDir_ne_empty hx).1, rfl⟩
      | factory hnone => cases hnone
      | dropped hnone => cases hnone
  · rw [Updater.dangling, Bool.and_eq_false_iff, Bool.not_eq_false']
    cases hcurrent with
    | release version hsome hlink =>
      subst hsome
      have hstays := h.of_version hnewest (List.mem_append_right _ (Option.mem_toList.mpr rfl))
      have hreal : d'.isRealDir version = true := by
        rw [isRealDir_congr (hframe.node version (isVersionDir_ne hnewest).1), isRealDir_congr hstays]
        exact isRealDir_of_isVersionDir hnewest
      refine Or.inr ((isdir_iff _ _).mpr ?_)
      rw [hlead hlink hreal]
      exact hreal
    | factory hnone hfactory hlink =>
      refine Or.inr ((isdir_iff _ _).mpr ?_)
      rw [Disk.realpath, follow_entry_link hlink, factoryApp, follow_outside]
      have hat := (isdir_iff _ _).mp hfactory
      rw [Disk.realpath, factoryApp, follow_outside] at hat
      exact dirAt_outside hframe.outsideDirs hat
    | dropped hnone hlink => exact Or.inl (by rw [Disk.islink, hlink])

end Tidy

theorem ensures_removeDirs_none {test : Disk → String → Bool} {t : Journal} {names : List String}
    (h : ∀ x ∈ names, test t.state.disk x = false) :
    Ensures (removeDirs test names) (fun removed u => removed = [] ∧ u.state = t.state) t := by
  induction names generalizing t with
  | nil => exact ⟨rfl, rfl⟩
  | cons name names ih =>
    obtain ⟨hname, hnames⟩ := List.forall_mem_cons.mp h
    apply safe_look
    refine ⟨trivial, ?_⟩
    rw [hname, if_neg Bool.false_ne_true]
    exact ih (t := Traced.goOn t t.state.disk [⟨.look, t.state.disk⟩]) hnames

theorem ensures_idle (pid : ℕ) {t : Journal} (ht : Tidy t.state.disk) :
    Ensures (recoverInterrupted pid) (fun r u => u.state = t.state ∧ r = {}) t := by
  have hrest (entries : List String) (u : Journal) (hu : u.state = t.state) :
      Ensures (sweepAndRepair pid false (referenced t.state.disk ++ Option.toList none) entries none)
        (fun r u => u.state = t.state ∧ r = {}) u := by
    have hstaging (x : String) (_ : x ∈ entries) : isStagingDir u.state.disk x = false := hu ▸ ht.staging x
    apply Prog.Safe.bind (ensures_removeDirs_none hstaging)
    rintro _ v ⟨rfl, hv⟩
    apply Prog.Safe.bind (ensures_versionDirs v)
    rintro versions v' ⟨hv', _, hversions⟩
    have hkept (x : String) (hx : x ∈ versions) :
        (fun (_ : Disk) name => !(referenced t.state.disk ++ Option.toList none).contains name) v'.state.disk x = false := by
      have hx := (hversions x).mp hx
      rw [hv, hu] at hx
      rw [Bool.not_eq_false', List.contains_iff_mem]
      exact List.mem_append_left _ (ht.versions x hx)
    apply Prog.Safe.bind (ensures_removeDirs_none hkept)
    rintro _ w ⟨rfl, hw⟩
    refine ⟨hw.trans (hv'.trans (hv.trans hu)), ?_⟩
    simp [sortedNames]
  apply safe_look
  refine ⟨trivial, ?_⟩
  split_ifs with hnone
  · exact ⟨rfl, rfl⟩
  apply ensures_listdir
  rintro (e | entries) _ _
  · exact ⟨rfl, rfl⟩
  apply safe_look
  refine ⟨trivial, ?_⟩
  dsimp only
  split
  · rename_i hdangling
    exact absurd hdangling (Bool.eq_false_iff.mp ht.current)
  · exact hrest entries _ rfl

def CurrentSpared (d : Disk) : Prop := ∀ name, d.realpath (.entry currentLink) = .entry name → isStagingDir d name = false

/-- A device with an update that was interrupted: a release in use and a staging directory beside it. -/
def interrupted (target : String) : World where
  disk := ⟨some (.ofList [("1.0.0", .dir ["app"]), ("current", .link (.entry target)), (".1.1.0.staging.x", .dir ["app"])]),
    ["/opt/pibuddycam"]⟩
  lastCheck := .absent
  updateState := none

instance (o : Op) : Decidable o.NoSwap := by
  unfold Op.NoSwap
  split <;> infer_instance

theorem not_swapFailed {pid : ℕ} {log : List Entry} (h : ∀ e ∈ log, e.1.NoSwap) : ¬ CurrentSwapFailed pid log := by
  rintro ⟨e, he, target, error, rfl | rfl⟩
  · exact h _ he
  · exact h _ he

def recoverOn (w : World) : RecoveryReport × Journal := (recoverInterrupted 7).run journal (fun _ => {}) ⟨w, []⟩

theorem run_recoverOn (w : World) :
    (recoverInterrupted 7).run journal (fun _ => {}) ⟨w, []⟩ = ((recoverOn w).1, (recoverOn w).2) := by
  rw [← recoverOn, Prod.mk.eta]

end PiBuddyCam.Updater
