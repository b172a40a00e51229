import PiBuddyCam.UpdaterAtomicity

/-! What one run of `recover_interrupted` leaves of the releases directory, when removals and reads succeed. -/
namespace PiBuddyCam.Updater

def DirAt (d : Disk) : Loc → Prop
  | .outside path => path ∈ d.outsideDirs
  | .entry name => d.isRealDir name = true

theorem dirAt_outside {d d' : Disk} {path : String} (h : d'.outsideDirs = d.outsideDirs)
    (hat : DirAt d (.outside path)) : DirAt d' (.outside path) := by
  rw [DirAt, h]
  exact hat

theorem isdir_iff (d : Disk) (l : Loc) : d.isdir l = true ↔ DirAt d (d.realpath l) := by
  unfold Disk.isdir
  cases d.realpath l with
  | outside path => exact List.contains_iff_mem
  | entry name => exact Iff.rfl

theorem islink_iff {d : Disk} {x : String} : d.islink x = true ↔ ∃ target, d.node x = some (.link target) := by
  unfold Disk.islink
  split
  · exact iff_of_true rfl ⟨_, ‹_›⟩
  · rename_i hnot
    exact iff_of_false Bool.false_ne_true fun ⟨target, h⟩ => hnot target h

section Links

variable {d d' : Disk}

def SameLink (d d' : Disk) (x : String) : Prop :=
  ∀ target, d'.node x = some (.link target) ↔ d.node x = some (.link target)

theorem follow_entry_link {x : String} {target : Loc} (h : d.node x = some (.link target)) (n : ℕ) :
    d.follow (n+1) (.entry x) = d.follow n target := by
  simp only [Disk.follow, h]

theorem follow_entry_stay {x : String} (h : ∀ target, d.node x ≠ some (.link target)) (n : ℕ) :
    d.follow n (.entry x) = .entry x := by
  cases n with
  | zero => rfl
  | succ n =>
    unfold Disk.follow
    split
    · rename_i target htarget
      exact absurd htarget (h target)
    · rfl

theorem follow_entry_congr {x : String} (hx : SameLink d d' x) {n m : ℕ}
    (h : ∀ target, d.node x = some (.link target) → d'.follow m target = d.follow n target) :
    d'.follow (m+1) (.entry x) = d.follow (n+1) (.entry x) := by
  by_cases hlink : ∃ target, d.node x = some (.link target)
  · obtain ⟨target, htarget⟩ := hlink
    rw [follow_entry_link htarget, follow_entry_link ((hx target).mpr htarget), h target htarget]
  · have hnone (target : Loc) (ht : d.node x = some (.link target)) : False := hlink ⟨target, ht⟩
    rw [follow_entry_stay hnone, follow_entry_stay fun target ht => hnone target ((hx target).mp ht)]

theorem follow_congr (h : ∀ x, SameLink d d' x) (n : ℕ) (l : Loc) : d'.follow n l = d.follow n l := by
  induction n generalizing l with
  | zero => rfl
  | succ n ih =>
    cases l with
    | outside path => rfl
    | entry x => exact follow_entry_congr (h x) fun target _ => ih target

theorem follow_mono {n m : ℕ} (hnm : n ≤ m) {l : Loc} (h : DirAt d (d.follow n l)) : d.follow m l = d.follow n l := by
  induction n generalizing m l with
  | zero =>
    cases l with
    | outside path => exact follow_outside d m path
    | entry x =>
      obtain ⟨files, hfiles⟩ := isRealDir_iff.mp h
      exact follow_entry_stay (fun target ht => by rw [hfiles] at ht; cases ht) m
  | succ n ih =>
    obtain ⟨m, rfl⟩ : ∃ k, m = k+1 := ⟨m-1, by omega⟩
    cases l with
    | outside path => rfl
    | entry x =>
      refine follow_entry_congr (fun _ => Iff.rfl) fun target htarget => ih (by omega) ?_
      rwa [follow_entry_link htarget] at h

def dangling (d : Disk) : Bool := d.islink currentLink && !d.isdir (.entry currentLink)

theorem follow_avoid (hdangling : dangling d = true) (h : ∀ x, x ≠ currentLink → SameLink d d' x) {n : ℕ} (hn : n ≤ 40)
    {l : Loc} (hdir : DirAt d (d.follow n l)) : d'.follow n l = d.follow n l := by
  induction n generalizing l with
  | zero => rfl
  | succ n ih =>
    cases l with
    | outside path => rfl
    | entry x =>
      by_cases hx : x = currentLink
      · have hreal := follow_mono hn hdir
        rw [hx] at hreal hdir
        rw [dangling, Bool.and_eq_true, Bool.not_eq_true'] at hdangling
        have hisdir : d.isdir (.entry currentLink) = true := by
          rw [isdir_iff, Disk.realpath, hreal]
          exact hdir
        rw [hdangling.2] at hisdir
        cases hisdir
      · refine follow_entry_congr (h x hx) fun target htarget => ih (by omega) ?_
        rwa [follow_entry_link htarget] at hdir

end Links

section Loops

variable {t : Journal}

theorem ensures_removeDirs (pid : ℕ) {test : Disk → String → Bool}
    (hcongr : ∀ d d' x, d'.node x = d.node x → test d' x = test d x) {names : List String} (hnodup : names.Nodup)
    (hreal : ∀ x ∈ names, test t.state.disk x = true → t.state.disk.isRealDir x = true) :
    Ensures (removeDirs test names) (fun removed u =>
      Steady pid (fun x => x ∈ names ∧ test t.state.disk x = true) t u ∧
        (∀ x ∈ names, test t.state.disk x = true → u.state.disk.node x = none) ∧
        removed = names.filter (test t.state.disk)) t := by
  induction names generalizing t with
  | nil => exact ⟨Steady.refl _ _ _, List.forall_mem_nil _, rfl⟩
  | cons name names ih =>
    obtain ⟨hname, hnodup⟩ := List.nodup_cons.mp hnodup
    apply safe_look
    refine ⟨trivial, ?_⟩
    have hlooked : Steady pid (fun _ => False) t (Traced.goOn t t.state.disk [⟨.look, t.state.disk⟩]) :=
      steady_log pid (o := .look) trivial _ t _
    split_ifs with htest
    · have hdir : (Traced.goOn t t.state.disk [⟨.look, t.state.disk⟩]).state.disk.isRealDir name = true :=
        hreal name List.mem_cons_self htest
      apply Prog.Safe.bind (rmtree_steady pid hdir)
      rintro _ u ⟨hu, hgone⟩
      have hframe (x : String) (hx : x ≠ name) : u.state.disk.node x = t.state.disk.node x := hu.frame.node x hx
      have hsame (x : String) (hx : x ∈ names) : test u.state.disk x = test t.state.disk x :=
        hcongr _ _ x (hframe x fun he => hname (he ▸ hx))
      have hrest := ih (t := u) hnodup fun x hx hpass => by
        rw [hsame x hx] at hpass
        have := hreal x (List.mem_cons_of_mem _ hx) hpass
        rw [isRealDir_iff] at this ⊢
        rw [hframe x fun he => hname (he ▸ hx)]
        exact this
      apply Prog.Safe.bind hrest
      rintro removed u' ⟨hu', hgone', hremoved⟩
      refine ⟨?_, ?_, ?_⟩
      · have hfirst : Steady pid (fun x => x ∈ name :: names ∧ test t.state.disk x = true) t u :=
          ((hlooked.mono fun _ => False.elim).trans hu).mono fun x hx => by
            rw [hx]
            exact ⟨List.mem_cons_self, htest⟩
        refine hfirst.trans (hu'.mono fun x hx => ⟨List.mem_cons_of_mem _ hx.1, ?_⟩)
        rw [← hsame x hx.1]
        exact hx.2
      · intro x hx hpass
        rcases List.mem_cons.mp hx with rfl | hx
        · rw [hu'.frame.node x fun h => hname h.1]
          exact hgone
        · exact hgone' x hx (by rw [hsame x hx]; exact hpass)
      · rw [List.filter_cons_of_pos htest, hremoved]
        exact congrArg _ (List.filter_congr fun x hx => hsame x hx)
    · have hrest := ih (t := Traced.goOn t t.state.disk [⟨.look, t.state.disk⟩]) hnodup
        fun x hx => hreal x (List.mem_cons_of_mem _ hx)
      apply hrest.mono (fun _ h => h)
      rintro removed u ⟨hu, hgone, hremoved⟩
      refine ⟨?_, ?_, ?_⟩
      · exact (hlooked.mono fun _ => False.elim).trans (hu.mono fun x hx => ⟨List.mem_cons_of_mem _ hx.1, hx.2⟩)
      · intro x hx hpass
        rcases List.mem_cons.mp hx with rfl | hx
        · exact absurd hpass htest
        · exact hgone x hx hpass
      · rw [List.filter_cons_of_neg htest]
        exact hremoved

theorem ensures_listdir {β : Type} {f : Except String (List String) → Run β} {Q : β → Journal → Prop}
    (h : ∀ r : Except String (List String), (r.toOption.getD []).Nodup →
      (∀ x, x ∈ r.toOption.getD [] ↔ t.state.disk.node x ≠ none) →
      Ensures (f r) Q (Traced.goOn t t.state.disk [⟨.listdir, r⟩])) :
    Ensures (listdir >>= f) Q t := by
  apply safe_sys
  intro c hc
  refine ⟨trivial, ?_⟩
  cases he : t.state.disk.releases with
  | none =>
    have hstep : worldStep t.state .listdir c = (.error c.error, t.state) := by
      simp only [worldStep, he, Option.map_none, Choice.read]
    rw [hstep]
    apply h (.error c.error) List.nodup_nil
    intro x
    rw [Disk.node, he]
    exact iff_of_false List.not_mem_nil fun hne => hne rfl
  | some e =>
    have hstep : worldStep t.state .listdir c = (.ok (c.arrange e.keys), t.state) := by
      simp only [worldStep, he, Option.map_some, Choice.read, hc.2, Bool.false_eq_true, if_false]
    rw [hstep]
    refine h _ ?_ fun x => ?_
    · rw [Except.toOption, Option.getD_some, Choice.arrange]
      split_ifs with hperm
      · exact (List.isPerm_iff.mp hperm).nodup_iff.mpr e.nodup
      · exact e.nodup
    · rw [Except.toOption, Option.getD_some, mem_arrange, Disk.node, he, Option.bind_some, ne_eq,
        OrderedDict.get?_eq_none_iff, not_not]

theorem node_ne_none_of_isRealDir {d : Disk} {x : String} (h : d.isRealDir x = true) : d.node x ≠ none := by
  obtain ⟨files, hfiles⟩ := isRealDir_iff.mp h
  rw [hfiles]
  exact Option.some_ne_none _

theorem isRealDir_of_isVersionDir {d : Disk} {x : String} (h : isVersionDir d x = true) : d.isRealDir x = true := by
  simp only [isVersionDir, Bool.and_eq_true] at h
  exact h.1.2

theorem ensures_versionDirs (t : Journal) :
    Ensures versionDirs (fun versions u => u.state = t.state ∧ versions.Nodup ∧
      ∀ x, x ∈ versions ↔ isVersionDir t.state.disk x = true) t := by
  apply ensures_listdir
  intro names hnodup hnames
  apply safe_look
  refine ⟨trivial, rfl, hnodup.filter _, fun x => ?_⟩
  rw [goOn_disk, List.mem_filter, hnames, and_iff_right_iff_imp]
  exact fun h => node_ne_none_of_isRealDir (isRealDir_of_isVersionDir h)

def Newest (d : Disk) : Option String → Prop
  | some version => isVersionDir d version = true
  | none => ∀ x, isVersionDir d x = false

theorem ensures_repairTarget (t : Journal) :
    Ensures repairTarget (fun newest u => u.state = t.state ∧ Newest t.state.disk newest) t := by
  apply Prog.Safe.bind (ensures_versionDirs t)
  rintro versions u ⟨hu, _, hversions⟩
  refine ⟨hu, ?_⟩
  split_ifs with hnewest
  · have hne (v : String) (hv : v ∈ versions) : v ≠ "" := by
      have hv := (hversions v).mp hv
      simp only [isVersionDir, Bool.and_eq_true] at hv
      rintro rfl
      exact absurd hv.2 (by decide)
    have hnil := newestVersion_eq_empty hne hnewest
    intro x
    by_contra hx
    rw [Bool.not_eq_false, ← hversions, hnil] at hx
    exact List.not_mem_nil hx
  · exact (hversions _).mp ((newestVersion_mem versions).resolve_left hnewest)

end Loops

section Repair

variable {pid : ℕ} {t : Journal}

/-- What the repair makes of `current`. -/
inductive Repaired (s : Disk) (newest : Option String) (d : Disk) : Prop
  | release (version : String) (hnewest : newest = some version)
      (hlink : d.node currentLink = some (.link (.entry version)))
  | factory (hnewest : newest = none) (hfactory : s.isdir factoryApp = true)
      (hlink : d.node currentLink = some (.link factoryApp))
  | dropped (hnewest : newest = none) (hlink : d.node currentLink = none)

def pointCurrent (pid : ℕ) (target : Loc) : Run (Bool × Option Loc) := do
  match ← atomicSymlink pid target currentLink with
  | .ok () => pure (true, some target)
  | .error _ => pure (false, none)

theorem ensures_repairCurrent {newest : Option String} (hlink : t.state.disk.islink currentLink = true) :
    Ensures (repairCurrent pid newest) (fun r u => CurrentSwapFailed pid u.log ∨ r.1 = true ∧
      Frame (· = currentLink) t.state.disk u.state.disk ∧ Repaired t.state.disk newest u.state.disk) t := by
  obtain ⟨l, hl⟩ := islink_iff.mp hlink
  have hrel := isSome_of_node hl
  have hswap (target : Loc) (htarget : ∀ d : Disk, d.node currentLink = some (.link target) →
      Repaired t.state.disk newest d) (u : Journal) (hu : u.state = t.state) :
      Ensures (pointCurrent pid target) (fun r u => CurrentSwapFailed pid u.log ∨ r.1 = true ∧
        Frame (· = currentLink) t.state.disk u.state.disk ∧ Repaired t.state.disk newest u.state.disk) u := by
    apply (Prog.safe_bind _).mpr
    apply ensures_swap (Or.inl rfl) (hu ▸ hrel)
    · intro v hv hnode _
      exact Or.inr ⟨rfl, hu ▸ hv, htarget _ hnode⟩
    · intro e v _ hfail
      exact Or.inl (hfail.mpr (Or.inr rfl))
  apply safe_look
  refine ⟨trivial, ?_⟩
  cases newest with
  | some version => exact hswap (.entry version) (fun d hd => .release version rfl hd) _ rfl
  | none =>
    split_ifs with hfactory
    · exact hswap factoryApp (fun d hd => .factory rfl hfactory hd) _ rfl
    · apply safe_sys (o := .remove currentLink)
      intro c hc
      refine ⟨trivial, Or.inr ⟨rfl, ?_⟩⟩
      simp only [worldStep, World.onDisk, Disk.remove, goOn_disk, hl, Disk.attempt, hc.1, Bool.not_false, Bool.and_self,
        if_true]
      exact ⟨frame_del _ _, .dropped rfl (Disk.node_del_self _ _)⟩

end Repair

def referenced (d : Disk) : List String :=
  [symlinkVersion d currentLink, symlinkVersion d previousLink].filter (· ≠ "")

def isSwept (d : Disk) (kept : List String) (x : String) : Bool :=
  isStagingDir d x || (isVersionDir d x && !kept.contains x)

structure Swept (kept : List String) (d s : Disk) : Prop where
  node : ∀ x, s.node x = if isSwept d kept x then none else d.node x
  outsideDirs : s.outsideDirs = d.outsideDirs

section Sweep

variable {d d' : Disk} {x : String}

theorem isRealDir_congr (h : d'.node x = d.node x) : d'.isRealDir x = d.isRealDir x := by
  unfold Disk.isRealDir
  rw [h]

theorem isStagingDir_congr (h : d'.node x = d.node x) : isStagingDir d' x = isStagingDir d x := by
  rw [isStagingDir, isStagingDir, isRealDir_congr h]

theorem isVersionDir_congr (h : d'.node x = d.node x) : isVersionDir d' x = isVersionDir d x := by
  rw [isVersionDir, isVersionDir, isRealDir_congr h]

theorem isVersionDir_of_isStagingDir (h : isStagingDir d x = true) : isVersionDir d' x = false := by
  simp only [isStagingDir, isStagingName, Bool.and_eq_true] at h
  simp only [isVersionDir, h.1.1, Bool.not_true, Bool.and_false, Bool.false_and]

theorem isRealDir_of_isSwept {kept : List String} (h : isSwept d kept x = true) : d.isRealDir x = true := by
  rw [isSwept, Bool.or_eq_true, Bool.and_eq_true] at h
  rcases h with h | h
  · exact (Bool.and_eq_true _ _ ▸ h).2
  · exact isRealDir_of_isVersionDir h.1

theorem Swept.sameLink {kept : List String} (h : Swept kept d d') (x : String) : SameLink d d' x := by
  intro target
  rw [h.node x]
  split_ifs with hswept
  · obtain ⟨files, hfiles⟩ := isRealDir_iff.mp (isRealDir_of_isSwept hswept)
    rw [hfiles]
    exact iff_of_false nofun nofun
  · exact Iff.rfl

end Sweep

theorem ensures_sweep {t : Journal} {entries kept : List String} (hnodup : entries.Nodup)
    (hentries : ∀ x, x ∈ entries ↔ t.state.disk.node x ≠ none) {β : Type} {f : List String → List String → Run β}
    {Q : β → Journal → Prop}
    (h : ∀ staging orphans u, Swept kept t.state.disk u.state.disk → Ensures (f staging orphans) Q u) :
    Ensures (do
      let staging ← removeDirs isStagingDir entries
      let versions ← versionDirs
      let orphans ← removeDirs (fun _ name => !kept.contains name) versions
      f staging orphans) Q t := by
  apply Prog.Safe.bind (ensures_removeDirs 0 (fun _ _ _ => isStagingDir_congr) hnodup
    fun x _ hx => (Bool.and_eq_true _ _ ▸ hx).2)
  rintro staging u ⟨hu, hgone, _⟩
  have hstaged (x : String) (hx : isStagingDir t.state.disk x = true) : u.state.disk.node x = none :=
    hgone x ((hentries x).mpr (node_ne_none_of_isRealDir (Bool.and_eq_true _ _ ▸ hx).2)) hx
  have hkept (x : String) (hx : isStagingDir t.state.disk x = false) :
      u.state.disk.node x = t.state.disk.node x :=
    hu.frame.node x fun h => Bool.false_ne_true (hx.symm.trans h.2)
  have hversion (x : String) : isVersionDir u.state.disk x = isVersionDir t.state.disk x := by
    cases hx : isStagingDir t.state.disk x with
    | true => rw [isVersionDir_of_isStagingDir hx, isVersionDir_of_isStagingDir hx]
    | false => exact isVersionDir_congr (hkept x hx)
  apply Prog.Safe.bind (ensures_versionDirs u)
  rintro versions v ⟨hv, hvnodup, hversions⟩
  rw [← hv] at hversions hstaged hkept hversion
  have hreal (x : String) (hx : x ∈ versions) : v.state.disk.isRealDir x = true :=
    isRealDir_of_isVersionDir ((hversions x).mp hx)
  apply Prog.Safe.bind (ensures_removeDirs 0 (fun _ _ _ _ => rfl) hvnodup fun x hx _ => hreal x hx)
  rintro orphans w ⟨hw, hwgone, _⟩
  refine h staging orphans w ⟨fun x => ?_, ?_⟩
  · cases hx : isStagingDir t.state.disk x with
    | true =>
      have hnot : x ∉ versions := fun hmem => by
        have := (hversions x).mp hmem
        rw [isVersionDir_of_isStagingDir hx] at this
        cases this
      rw [isSwept, hx, Bool.true_or, if_pos rfl, hw.frame.node x fun h => hnot h.1, hstaged x hx]
    | false =>
      rw [isSwept, hx, Bool.false_or, ← hversion x]
      by_cases hmem : isVersionDir v.state.disk x = true ∧ (!kept.contains x) = true
      · rw [if_pos (Bool.and_eq_true _ _ ▸ hmem)]
        exact hwgone x ((hversions x).mpr hmem.1) hmem.2
      · rw [if_neg (Bool.and_eq_true _ _ ▸ hmem), ← hkept x hx]
        exact hw.frame.node x fun h => hmem ⟨(hversions x).mp h.1, h.2⟩
  · rw [hw.frame.outsideDirs, hv, hu.frame.outsideDirs]

/-- What a run leaves of a disk, and what it says of the repair. -/
inductive Recovered (d : Disk) (r : RecoveryReport) (d' : Disk) : Prop
  | sound (hdangling : dangling d = false) (hswept : Swept (referenced d) d d')
  | repaired (hdangling : dangling d = true) (newest : Option String) (s : Disk) (hnewest : Newest d newest)
      (hswept : Swept (referenced d ++ newest.toList) d s) (hsaid : r.currentRepaired = true)
      (hframe : Frame (· = currentLink) s d') (hcurrent : Repaired s newest d')

theorem swept_of_empty {d : Disk} (h : ∀ x, d.node x = none) (kept : List String) : Swept kept d d := by
  refine ⟨fun x => ?_, rfl⟩
  rw [h x, ite_self]

def sweepAndRepair (pid : ℕ) (dangles : Bool) (kept entries : List String) (newest : Option String) :
    Run RecoveryReport := do
  let stagingRemoved ← removeDirs isStagingDir entries
  let versions ← versionDirs
  let orphansRemoved ← removeDirs (fun _ name => !kept.contains name) versions
  let (repaired, target) ← if dangles then repairCurrent pid newest else pure (false, none)
  pure ⟨sortedNames stagingRemoved, sortedNames orphansRemoved, repaired, target⟩

theorem ensures_sweepAndRepair (pid : ℕ) {t : Journal} {d : Disk} {entries : List String} {newest : Option String}
    (hd : t.state.disk = d) (hnodup : entries.Nodup) (hentries : ∀ x, x ∈ entries ↔ d.node x ≠ none) {dangles : Bool}
    (hdangles : dangling d = dangles) (hnewest : if dangles then Newest d newest else newest = none) :
    Ensures (sweepAndRepair pid dangles (referenced d ++ newest.toList) entries newest)
      (fun r u => CurrentSwapFailed pid u.log ∨ Recovered d r u.state.disk) t := by
  rw [← hd] at hentries
  apply ensures_sweep hnodup hentries
  intro staging orphans v hv
  rw [hd] at hv
  cases dangles with
  | false =>
    obtain rfl : newest = none := hnewest
    rw [Option.toList_none, List.append_nil] at hv
    exact Or.inr (.sound hdangles hv)
  | true =>
    -- the sweep takes directories only, so that `current` is still there to be repaired
    have hlink : v.state.disk.islink currentLink = true := by
      obtain ⟨l, hl⟩ := islink_iff.mp (Bool.and_eq_true _ _ ▸ hdangles : _ ∧ _).1
      exact islink_iff.mpr ⟨l, (hv.sameLink currentLink l).mpr hl⟩
    apply Prog.Safe.bind (ensures_repairCurrent hlink)
    rintro ⟨repaired, target⟩ w (hfail | ⟨hsaid, hframe, hcurrent⟩)
    · exact Or.inl hfail
    · exact Or.inr (.repaired hdangles newest _ hnewest hv hsaid hframe hcurrent)

theorem ensures_recoverInterrupted (pid : ℕ) (t : Journal) :
    Ensures (recoverInterrupted pid)
      (fun r u => CurrentSwapFailed pid u.log ∨ Recovered t.state.disk r u.state.disk) t := by
  have hempty (h : ∀ x, t.state.disk.node x = none) (r : RecoveryReport) : Recovered t.state.disk r t.state.disk := by
    refine .sound ?_ (swept_of_empty h _)
    rw [dangling, Disk.islink, h, Bool.false_and]
  apply safe_look
  refine ⟨trivial, ?_⟩
  split_ifs with hnone
  · refine Or.inr (hempty (fun x => ?_) _)
    rw [Disk.node, Option.isNone_iff_eq_none.mp hnone, Option.bind_none]
  apply ensures_listdir
  rintro (e | entries) hnodup hentries
  · exact Or.inr (hempty (fun x => not_ne_iff.mp fun hne => List.not_mem_nil ((hentries x).mpr hne)) _)
  apply safe_look
  refine ⟨trivial, ?_⟩
  dsimp only
  split
  · rename_i hdangling
    apply Prog.Safe.bind (ensures_repairTarget _)
    rintro newest u ⟨hu, hnewest⟩
    exact ensures_sweepAndRepair pid (congrArg World.disk hu) hnodup hentries hdangling hnewest
  · rename_i hdangling
    have hrest (u : Journal) (hu : u.state.disk = t.state.disk) :=
      ensures_sweepAndRepair pid hu hnodup hentries (Bool.eq_false_iff.mpr hdangling) rfl
    exact hrest _ rfl

end PiBuddyCam.Updater
