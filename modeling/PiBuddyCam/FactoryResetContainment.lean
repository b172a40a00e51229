import PiBuddyCam.FactoryReset
import PiBuddyCam.OsEffects

/-! What `execute` and `finalize_after_claimed_boot` take away, and where it is: every entry that they
try to remove, over all runs. -/
namespace PiBuddyCam.Reset

open LinkTree LinkTree.Os
open Archive (route parts isabs)

def Below (d p : Path) : Prop := ∃ rest, rest ≠ [] ∧ p = d ++ rest

theorem prefix_of_within {p root : Path} (h : within p root = true) : root <+: p := by
  unfold within at h
  rw [Bool.or_eq_true, Bool.and_eq_true, decide_eq_true_iff, List.isPrefixOf_iff_prefix] at h
  rcases h with rfl | h
  · exact List.prefix_rfl
  · exact h.2

namespace Setup

variable (s : Setup)

theorem under_append (names more : List String) : s.under (names ++ more) = (s.under names).join more := by
  rw [under, under, Route.join, List.append_assoc]

def looseNames : List String := ["state.json", "provisioning.json", "pending-deletion.json", "pending-deletion.json.tmp"]

/-- The entries that `execute` is there to take away: those in the configuration and timelapse directories and the
loose files, all by their real place, and the backup that it makes itself. -/
def Own (v : Fs) (includeTimelapse : Bool) (timestamp : String) (p : Path) : Prop :=
  Below (s.real v s.prusaCamDir ++ ["config"]) p ∨
  (includeTimelapse = true ∧ Below (s.real v (s.under ["sdcard"]) ++ ["timelapse"]) p) ∨
  (∃ name ∈ looseNames, p = s.real v s.prusaCamDir ++ [name]) ∨
  s.real v s.backupsDir ++ [s.uniqueBackup v timestamp] <+: p

/-- The zone has every entry below the directory that is inside the root. -/
def Reserves (w : Fs) (Z : Path → Prop) (D : Path) : Prop := ∀ p, s.realRoot w <+: p → Below D p → Z p

/-- A zone that has what the deletion finds from `w` on. -/
structure Covers (w : Fs) (includeTimelapse : Bool) (Z : Path → Prop) : Prop where
  config : ∀ d, w.Reaches s.prusaCamDir d → s.Reserves w Z (d ++ ["config"])
  timelapse : includeTimelapse = true → ∀ d, w.Reaches (s.under ["sdcard"]) d → s.Reserves w Z (d ++ ["timelapse"])
  loose : ∀ d, w.Reaches s.prusaCamDir d → ∀ name ∈ looseNames, Z (d ++ [name])

section Roots

variable {s} {v u w : Fs} {d : Path} {names : List String}

theorem real_of_reaches {r : Route} (h : v.Reaches r d) : s.real v r = d := h.realpath s.enough

theorem real_join {r : Route} {name : String} (h : v.Reaches r d) (hname : Named name)
    (hlink : v.islink (r.join [name]) = false) : s.real v (r.join [name]) = d ++ [name] := by
  rw [Volume.islink_eq_false_iff, h.lstat_join hname] at hlink
  exact h.realpath_join hname hlink s.enough

theorem stem_append (xs : List String) : xs = stem xs ∨ xs = stem xs ++ [""] := by
  unfold stem
  split_ifs with h
  · rcases List.eq_nil_or_concat' xs with rfl | ⟨init, last, rfl⟩
    · cases h
    · rw [List.getLast?_concat, Option.some.injEq] at h
      rw [List.dropLast_concat, h]
      exact Or.inr rfl
  · exact Or.inl rfl

theorem realRoot_of_reaches (h : v.Reaches (s.under names) d) : ∃ e, v.Reaches (s.under []) e ∧ s.realRoot v = e := by
  have hjoin : s.under names = (s.under []).join names := s.under_append [] names
  rw [hjoin] at h
  obtain ⟨e, k, he⟩ := h.upper
  refine ⟨e, ⟨k, he⟩, ?_⟩
  have hparts : (s.under []).parts = stem (parts s.dataRoot) := List.append_nil _
  rw [hparts] at he
  have hroot : v.Reaches s.root e := by
    rcases stem_append (parts s.dataRoot) with hsame | hslash
    · refine ⟨k, ?_⟩
      rw [root, route, hsame]
      exact he
    · refine ⟨k, ?_⟩
      rw [root, route, hslash]
      exact he.trans (.stay (Or.inl rfl) .here)
  exact real_of_reaches hroot

theorem realRoot_of_tied (h : Volume.Tied w u) (hd : u.Reaches (s.under names) d) : s.realRoot u = s.realRoot w := by
  obtain ⟨e', he', hw⟩ := realRoot_of_reaches (h.reaches hd)
  obtain ⟨e, he, hu⟩ := realRoot_of_reaches hd
  rw [hu, hw, (h.reaches he).unique he']

end Roots

section Deletion

variable {s} {w : Fs} {Z : Path → Prop} {A : Chance Content → Prop} {t : Log} {names : List String} {last : String}
  {D : Path}

/-- A route below the root to an entry that is in the zone if it is inside the root. -/
def Deletable (s : Setup) (Z : Path → Prop) (w : Fs) (r : Route) : Prop :=
  ∃ names name, r = (s.under names).join [name] ∧ Named name ∧
    ∀ d, w.Reaches (s.under names) d → s.realRoot w <+: d ++ [name] → Z (d ++ [name])

variable {sub dirs files : List String} {r : Route}

theorem deletable_of_reaches {name : String} (hsub : w.Reaches ((s.under names).join sub) (D ++ sub))
    (hname : Named name) (hZ : s.Reserves w Z D) : s.Deletable Z w ((s.under names).join (sub ++ [name])) := by
  refine ⟨names ++ sub, name, ?_, hname, fun d hd hin => ?_⟩
  · rw [under_append, Route.join_join]
  · rw [under_append] at hd
    rw [hd.unique hsub] at hin ⊢
    exact hZ _ hin ⟨sub ++ [name], List.append_ne_nil_of_right_ne_nil _ (List.cons_ne_nil _ _), List.append_assoc _ _ _⟩

theorem safe_filesLevel (hZ : s.Reserves w Z D) (hsub : Descent w (s.under names) D sub)
    (hdirs : ∀ name ∈ dirs, Named name) (hfiles : ∀ name ∈ files, Named name) (ht : Guarded Z (· = w) t) :
    (s.filesLevel (s.under names) (s.realRoot w) sub dirs files).Safe journal A (Guarded Z (· = w)) (Prog.Ended
      (fun out t' => Guarded Z (· = w) t' ∧ (∀ r ∈ out.1, s.Deletable Z w r) ∧ ∀ name ∈ out.2, name ∈ dirs)
      fun _ => Guarded Z (· = w)) t := by
  apply safe_look ht
  intro t1 _ ht1
  split_ifs
  · rw [List.partition_eq_filter_filter]
    refine ⟨ht1, fun r hr => ?_, fun name hname => (List.mem_filter.mp hname).1⟩
    obtain ⟨name, hname, rfl⟩ := List.mem_map.mp hr
    apply deletable_of_reaches hsub.self _ hZ
    rcases List.mem_append.mp hname with hname | hname
    · exact hdirs name (List.mem_filter.mp hname).1
    · exact hfiles name hname
  · exact ⟨ht1, List.forall_mem_nil _, List.forall_mem_nil _⟩

theorem safe_dirsLevel {u : Fs} (htied : Volume.Tied w u) (hZ : s.Reserves w Z D)
    (hsub : Descent u (s.under names) D sub) (ht : Guarded Z (· = u) t) :
    (s.dirsLevel (s.under names) (s.realRoot u) sub dirs files).Safe journal A (Guarded Z (· = u)) (Prog.Ended
      (fun out t' => Guarded Z (· = u) t' ∧ (∀ r ∈ out.1, s.Deletable Z w r ∧ w.islink r = false) ∧
        ∀ name ∈ out.2, name ∈ dirs)
      fun _ => Guarded Z (· = u)) t := by
  apply safe_look ht
  intro t1 _ ht1
  split_ifs with hin htop
  · exact ⟨ht1, List.forall_mem_nil _, fun name hname => (List.mem_filter.mp hname).1⟩
  · refine ⟨ht1, List.forall_mem_singleton.mpr ?_, fun name hname => (List.mem_filter.mp hname).1⟩
    rcases List.eq_nil_or_concat' sub with rfl | ⟨init, name, rfl⟩
    · exact absurd rfl htop
    have hname : Named name := hsub.named name (List.mem_append_right _ (List.mem_singleton.mpr rfl))
    have hinit := htied.reaches (hsub.reaches init (List.prefix_append _ _))
    refine ⟨deletable_of_reaches hinit hname hZ, ?_⟩
    rw [← Route.join_join, Volume.islink_eq_false_iff, hinit.lstat_join hname, List.append_assoc,
      htied.dirs _ (hsub.dir htop)]
    exact nofun
  · exact ⟨ht1, List.forall_mem_nil _, List.forall_mem_nil _⟩

theorem safe_iterate {top upper : Route} {Found : Route → Prop}
    {level : Path → List String → List String → List String → Run (Except Fault (List Route × List String))}
    (htop : top = upper.join [last]) (hlast : Named last)
    (hlevel : ∀ d sub dirs files t, w.Reaches upper d → Guarded Z (· = w) t → Descent w top (d ++ [last]) sub →
      (∀ name ∈ dirs, Named name) → (∀ name ∈ files, Named name) →
      (level (s.realRoot w) sub dirs files).Safe journal A (Guarded Z (· = w)) (Prog.Ended
        (fun out t' => Guarded Z (· = w) t' ∧ (∀ r ∈ out.1, Found r) ∧ ∀ name ∈ out.2, name ∈ dirs)
        fun _ => Guarded Z (· = w)) t)
    (ht : Guarded Z (· = w) t) :
    (s.iterate top level).Safe journal A (Guarded Z (· = w)) (fun found t' => Guarded Z (· = w) t' ∧
      ∀ r ∈ found, Found r) t := by
  apply safe_look ht
  intro t1 _ ht1
  have hstate : t.state = w := ht.state
  rw [hstate]
  split_ifs with hwalk
  · rw [Bool.and_eq_true, Bool.not_eq_true', htop] at hwalk
    obtain ⟨d, hd, hnode⟩ := Volume.reaches_of_isdir_join hlast hwalk.1 hwalk.2
    have hstart : Descent w top (d ++ [last]) [] := by
      rw [htop]
      exact .start (hd.join hlast hnode)
    apply (safe_walk_reads (fun sub dirs files t => hlevel d sub dirs files t hd) s.depth hstart ht1).bind
    intro result t2 h2
    cases result with
    | error e => exact ⟨h2, List.forall_mem_nil _⟩
    | ok found => exact h2
  · exact ⟨ht1, List.forall_mem_nil _⟩

theorem Deletable.zone (hr : s.Deletable Z w r) (htied : Volume.Tied w t.state)
    (hin : ∀ upper name d, r = upper.join [name] → Named name → t.state.Reaches upper d →
      s.realRoot t.state <+: d ++ [name]) {p : Path} (hp : t.state.entry r = some p) : Z p := by
  obtain ⟨names, name, rfl, hname, hZ⟩ := hr
  obtain ⟨d, hd, rfl⟩ := Volume.reaches_of_entry_join hname hp
  apply hZ d (htied.reaches hd)
  rw [← realRoot_of_tied htied hd]
  exact hin _ name d rfl hname hd

theorem safe_deleteFile (hr : s.Deletable Z w r) (ht : Guarded Z (Volume.Tied w) t) :
    (s.deleteFile r).Keeps journal A (Guarded Z (Volume.Tied w)) t := by
  apply safe_look ht
  intro t1 hsame ht1
  split
  · exact ht1
  by_cases hout : within (s.real t.state (if t.state.islink r = true then dirname r else r)) (s.realRoot t.state) = false
  · rw [if_pos hout]
    exact ht1
  rw [if_neg hout]
  rw [Bool.not_eq_false] at hout
  -- the check is made for the entry itself, or for the directory that a link stands in
  have hzone (p : Path) (hp : t1.state.entry r = some p) : Z p := by
    rw [hsame] at hp
    apply hr.zone ht.state _ hp
    rintro upper name d rfl hname hd
    by_cases hlink : t.state.islink (upper.join [name]) = true
    · have hupper : dirname (upper.join [name]) = upper := by
        rw [dirname, Route.join, List.dropLast_concat]
      rw [if_pos hlink, hupper, real_of_reaches hd] at hout
      exact (prefix_of_within hout).trans (List.prefix_append _ _)
    · rw [if_neg hlink, real_join hd hname (Bool.eq_false_iff.mpr hlink)] at hout
      exact prefix_of_within hout
  apply (safe_remove hzone ht1).bind
  intro result t2 ht2
  cases result with
  | error e => exact ht2
  | ok _ => exact ht2

theorem safe_deleteFiles {paths : List Route} (hpaths : ∀ r ∈ paths, s.Deletable Z w r)
    (ht : Guarded Z (Volume.Tied w) t) : (s.deleteFiles paths).Keeps journal A (Guarded Z (Volume.Tied w)) t := by
  apply Prog.safe_foldOk_keep ht
  intro r hr done t1 ht1
  apply (safe_deleteFile (hpaths r hr) ht1).andThen_keep
  intro size t2 ht2
  cases size with
  | none => exact ht2
  | some size => exact ht2

theorem safe_removeEmptyDir (hr : s.Deletable Z w r) (hplain : w.islink r = false)
    (ht : Guarded Z (Volume.Tied w) t) : (s.removeEmptyDir r).Keeps journal A (Guarded Z (Volume.Tied w)) t := by
  apply safe_look ht
  intro t1 hsame ht1
  split_ifs with hout
  · exact ht1
  rw [Bool.not_eq_false] at hout
  have hzone (p : Path) (hp : t1.state.entry r = some p) : Z p := by
    rw [hsame] at hp
    apply hr.zone ht.state _ hp
    rintro upper name d rfl hname hd
    rw [real_join hd hname (ht.state.islink hname hplain)] at hout
    exact prefix_of_within hout
  obtain ⟨names, name, rfl, hname, -⟩ := hr
  apply (safe_rmdir hname hzone ht1).bind
  intro result t2 ht2
  cases result with
  | error e => exact ht2
  | ok _ => exact ht2

theorem safe_removeEmptyDirs {paths : List Route} (hpaths : ∀ r ∈ paths, s.Deletable Z w r ∧ w.islink r = false)
    (done : Deleted) (ht : Guarded Z (Volume.Tied w) t) :
    (s.removeEmptyDirs done paths).Keeps journal A (Guarded Z (Volume.Tied w)) t := by
  apply Prog.safe_foldOk_keep ht
  intro r hr done t1 ht1
  apply (safe_removeEmptyDir (hpaths r hr).1 (hpaths r hr).2 ht1).bind
  intro removed t2 ht2
  exact ht2

theorem tied_of_eq (t : Log) (h : Guarded Z (· = w) t) : Guarded Z (Volume.Tied w) t := h.imp fun _ hu => hu ▸ .refl w

theorem safe_iterFiles (hlast : Named last) (hZ : ∀ d, w.Reaches (s.under names) d → s.Reserves w Z (d ++ [last]))
    (ht : Guarded Z (· = w) t) :
    (s.iterFiles (s.under (names ++ [last]))).Safe journal A (Guarded Z (Volume.Tied w))
      (fun found t' => Guarded Z (· = w) t' ∧ ∀ r ∈ found, s.Deletable Z w r) t := by
  have hfound := safe_iterate (A := A) (s := s) (s.under_append names [last]) hlast
    (fun d sub dirs files t hd ht hsub hdirs hfiles => safe_filesLevel (hZ d hd) hsub hdirs hfiles ht) ht
  exact hfound.mono tied_of_eq fun _ _ h => h

theorem safe_iterDirsBottomUp (hlast : Named last)
    (hZ : ∀ d, w.Reaches (s.under names) d → s.Reserves w Z (d ++ [last])) (ht : Guarded Z (Volume.Tied w) t) :
    (s.iterDirsBottomUp (s.under (names ++ [last]))).Safe journal A (Guarded Z (Volume.Tied w))
      (fun found t' => Guarded Z (Volume.Tied w) t' ∧ ∀ r ∈ found, s.Deletable Z w r ∧ w.islink r = false) t := by
  -- the walk sees what is left
  obtain ⟨u, hu⟩ : ∃ u, u = t.state := ⟨_, rfl⟩
  have htied : Volume.Tied w u := hu ▸ ht.state
  have hback (t' : Log) (h : Guarded Z (· = u) t') : Guarded Z (Volume.Tied w) t' := h.imp fun x hx => hx ▸ htied
  have hfound := safe_iterate (A := A) (s := s) (s.under_append names [last]) hlast
    (fun d sub dirs files t hd ht hsub _ _ => safe_dirsLevel htied (hZ d (htied.reaches hd)) hsub ht) ⟨ht.log, hu.symm⟩
  apply (hfound.mono hback fun _ _ h => h).bind
  rintro found t' ⟨ht', hlisted⟩
  exact ⟨hback t' ht', fun r hr => hlisted r ((List.mem_insertionSort _).mp hr)⟩

theorem safe_deleteTargets {includeTimelapse : Bool} (hc : s.Covers w includeTimelapse Z) (ht : Guarded Z (· = w) t) :
    (s.deleteTargets includeTimelapse).Keeps journal A (Guarded Z (Volume.Tied w)) t := by
  have hconfig (d : Path) (hd : w.Reaches (s.under ["pibuddycam"]) d) : s.Reserves w Z (d ++ ["config"]) :=
    hc.config d hd
  have hsingle (name : String) (hname : Named name) (hmem : name ∈ looseNames) :
      s.Deletable Z w (s.under ["pibuddycam", name]) :=
    ⟨["pibuddycam"], name, s.under_append ["pibuddycam"] [name], hname, fun d hd _ => hc.loose d hd name hmem⟩
  apply (safe_iterFiles (by decide) hconfig ht).bind
  rintro config t1 ⟨ht1, hconfigFiles⟩
  apply safe_look (tied_of_eq t1 ht1)
  intro t2 hsame ht2
  have hnow : Guarded Z (· = w) t2 := ⟨ht2.log, hsame.trans ht1.state⟩
  have hfiles : (s.timelapseFiles includeTimelapse).Safe journal A (Guarded Z (Volume.Tied w))
      (fun found t' => Guarded Z (· = w) t' ∧ ∀ r ∈ found, s.Deletable Z w r) t2 := by
    cases includeTimelapse with
    | false => exact ⟨hnow, List.forall_mem_nil _⟩
    | true => exact @safe_iterFiles s w Z A t2 ["sdcard"] "timelapse" (by decide) (hc.timelapse rfl) hnow
  apply hfiles.bind
  rintro timelapse t3 ⟨ht3, htimelapseFiles⟩
  have hall : ∀ r ∈ sorted (config ++ [s.stateJson, s.provisioningJson].filter (fun path => t1.state.lexists path) ++
      timelapse).dedup, s.Deletable Z w r := by
    intro r hr
    rw [sorted, List.mem_insertionSort, List.mem_dedup, List.mem_append, List.mem_append] at hr
    rcases hr with (hr | hr) | hr
    · exact hconfigFiles r hr
    · have hmem := (List.mem_filter.mp hr).1
      rw [List.mem_cons, List.mem_singleton] at hmem
      rcases hmem with rfl | rfl
      · exact hsingle "state.json" (by decide) (by decide)
      · exact hsingle "provisioning.json" (by decide) (by decide)
    · exact htimelapseFiles r hr
  apply (safe_deleteFiles hall (tied_of_eq t3 ht3)).andThen_keep
  intro done t4 ht4
  apply (safe_iterDirsBottomUp (by decide) hconfig ht4).bind
  rintro configDirs t5 ⟨ht5, hconfigDirs⟩
  apply (safe_removeEmptyDirs hconfigDirs done ht5).andThen_keep
  intro done t6 ht6
  cases includeTimelapse with
  | false => exact ht6
  | true =>
    apply (@safe_iterDirsBottomUp s w Z A t6 ["sdcard"] "timelapse" (by decide) (hc.timelapse rfl) ht6).bind
    rintro timelapseDirs t7 ⟨ht7, htimelapseDirs⟩
    exact safe_removeEmptyDirs htimelapseDirs done ht7

theorem safe_writePendingDeletion {includeTimelapse : Bool} (hc : s.Covers w includeTimelapse Z) (backup : Route)
    (timestamp createdAt : String) (ht : Guarded Z (Volume.Tied w) t) :
    (s.writePendingDeletion backup timestamp createdAt).Keeps journal A (Guarded Z fun _ => True) t := by
  have hloose (name : String) (hname : Named name) (hmem : name ∈ looseNames) : Aims Z w (s.under ["pibuddycam", name]) :=
    ⟨s.prusaCamDir, name, s.under_append ["pibuddycam"] [name], hname, fun d hd => hc.loose d hd name hmem⟩
  have htemporary : Aims Z w s.temporary := hloose "pending-deletion.json.tmp" (by decide) (by decide)
  have hmarker : Aims Z w s.pendingDeletionPath := hloose "pending-deletion.json" (by decide) (by decide)
  have hwritten : ((write s.temporary (s.dumps [("backup_path", text backup), ("created_at", createdAt),
      ("timestamp", timestamp)])).andThen fun _ => replace s.temporary s.pendingDeletionPath).Safe journal A
      (Guarded Z fun _ => True) (Prog.Ended (fun _ => Guarded Z fun _ => True) fun _ => Guarded Z (Volume.Tied w)) t := by
    apply ((safe_write s.temporary _ ht).mono Guarded.any fun _ _ h => h).bind
    intro result t1 ht1
    cases result with
    | error e => exact ht1
    | ok _ => exact safe_replace htemporary hmarker ht1
  apply hwritten.bind
  intro result t1 h1
  cases result with
  | ok _ => exact h1
  | error e =>
    have hzone (p : Path) (hp : t1.state.entry s.temporary = some p) : Z p := htemporary.entry h1.state hp
    apply ((safe_remove hzone h1).mono Guarded.any fun _ _ h => h).bind
    intro _ t2 ht2
    exact ht2.any

end Deletion

section Backup

variable {s}

theorem adds_because (reason : String) {p : Run (Except Fault Unit)} (hp : p.Within Act.Adds) :
    (s.because reason p).Within Act.Adds := by
  apply hp.bind
  intro result
  cases result with
  | ok _ => trivial
  | error e => trivial

theorem adds_copyFileSafely (source upper : Route) (name : String) :
    (s.copyFileSafely source upper name).Within Act.Adds := by
  apply within_look trivial
  intro v
  split_ifs
  · apply adds_because
    exact (adds_makedirs _ _).andThen fun _ => adds_copyfile _ _
  · trivial

theorem adds_copyLevel (realRoot : Path) (source destination : Route) (sub dirs files : List String) :
    (s.copyLevel realRoot source destination sub dirs files).Within Act.Adds := by
  apply within_look trivial
  intro v
  split_ifs
  · apply (adds_makedirs _ _).andThen
    intro _
    apply within_look trivial
    intro v
    have hfiles : (Prog.foldOk (fun _ name => do
        let v ← look
        let file := source.join (sub ++ [name])
        if !v.islink file && within (s.real v file) realRoot then
          copyfile file (destination.join (sub ++ [name]))
        else pure (.ok ())) files ()).Within Act.Adds := by
      apply Prog.Within.foldOk
      intro _ name _
      apply within_look trivial
      intro v
      dsimp only
      split_ifs
      · exact adds_copyfile _ _
      · trivial
    exact hfiles.andThen fun _ => trivial
  · trivial

theorem adds_copyTreeSafely (source destination : Route) : (s.copyTreeSafely source destination).Within Act.Adds := by
  apply within_look trivial
  intro v
  split_ifs
  · apply adds_because
    have hwalk : (walk source (s.copyLevel (s.realRoot v) source destination) s.depth []).Within Act.Adds :=
      within_walk trivial (fun _ => trivial) (adds_copyLevel _ _ _) s.depth []
    exact hwalk.andThen fun _ => trivial
  · trivial

theorem adds_copyAll (backup : Route) (includeTimelapse : Bool) : (s.copyAll backup includeTimelapse).Within Act.Adds := by
  apply (adds_copyFileSafely _ _ _).andThen
  intro _
  apply (adds_copyFileSafely _ _ _).andThen
  intro _
  apply (adds_copyFileSafely _ _ _).andThen
  intro _
  apply (adds_copyFileSafely _ _ _).andThen
  intro _
  cases includeTimelapse with
  | false => trivial
  | true => exact adds_copyTreeSafely _ _

variable {v : Fs} {Z : Path → Prop} {A : Chance Content → Prop} {t : Log}

theorem safe_of_adds {α : Type} {p : Run α} (hp : p.Within Act.Adds) (ht : Guarded Z (Volume.Grown v) t) :
    p.Keeps journal A (Guarded Z (Volume.Grown v)) t := by
  apply safe_of_within hp _ (fun u o c ho hu => hu.step ho c) ht
  intro o ho q hq
  rw [removed_of_adds ho] at hq
  exact absurd hq List.not_mem_nil

theorem candidate_named (timestamp : String) (k : ℕ) : Named (candidate timestamp k) := by
  have hstart (rest : String) : Named ("factory-reset-" ++ rest) := by
    have hlen : 3 ≤ ("factory-reset-" ++ rest).length := by
      rw [String.length_append]
      have : "factory-reset-".length = 14 := by decide
      omega
    refine ⟨?_, ?_, ?_⟩
    all_goals
      intro h
      rw [h] at hlen
      exact absurd hlen (by decide)
  cases k with
  | zero => exact hstart timestamp
  | succ k =>
    have h := hstart (timestamp ++ "-" ++ toString (k+2))
    rwa [← String.append_assoc, ← String.append_assoc] at h

theorem firstFree_named (v : Fs) (timestamp : String) (tries k : ℕ) : Named (s.firstFree v timestamp tries k) := by
  induction tries generalizing k with
  | zero => exact candidate_named timestamp k
  | succ tries ih =>
    rw [firstFree]
    split_ifs
    · exact ih (k+1)
    · exact candidate_named timestamp k

theorem safe_createBackup (timestamp : String) (includeTimelapse : Bool)
    (hZ : ∀ q, s.real v s.backupsDir ++ [s.uniqueBackup v timestamp] <+: q → Z q) (ht : Guarded Z (· = v) t) :
    (s.createBackup timestamp includeTimelapse).Safe journal A (Guarded Z fun _ => True)
      (Prog.Ended (fun _ => Guarded Z (Volume.Grown v)) fun _ => Guarded Z fun _ => True) t := by
  have hname : Named (s.uniqueBackup v timestamp) := firstFree_named v timestamp _ 0
  have hbackup : s.backupAt (s.uniqueBackup v timestamp) = s.backupsDir.join [s.uniqueBackup v timestamp] :=
    s.under_append ["pibuddycam", "backups"] [s.uniqueBackup v timestamp]
  have hcleanup (t' : Log) (h : Guarded Z (Volume.Grown v) t') :
      (s.cleanupBackup (s.backupAt (s.uniqueBackup v timestamp))).Safe journal A (Guarded Z fun _ => True)
        (fun _ => Guarded Z fun _ => True) t' := by
    have hzone (d q : Path) (hd : t'.state.Reaches s.backupsDir d)
        (_ : t'.state.node (d ++ [s.uniqueBackup v timestamp]) = some .dir)
        (hq : d ++ [s.uniqueBackup v timestamp] <+: q) : Z q := by
      -- no link is new, so the directory is where it was
      have hreal : s.real v s.backupsDir = d := (h.state.realpath s.hops s.backupsDir).symm.trans (real_of_reaches hd)
      rw [← hreal] at hq
      exact hZ q hq
    have hnow : Guarded Z (Volume.Tied t'.state) t' := ⟨h.log, .refl _⟩
    rw [hbackup]
    apply ((safe_rmtree true s.depth hname hzone hnow).mono Guarded.any fun _ _ h => h).bind
    intro _ t'' ht''
    exact ht''.any
  apply safe_look_weaken ht Guarded.any
  intro t1 hsame ht1
  have hstate : t.state = v := ht.state
  rw [hstate]
  have hgrown : Guarded Z (Volume.Grown v) t1 := ht1.imp fun u hu => hu ▸ .refl v
  apply ((safe_of_adds (adds_because _ (adds_makedirs _ _)) hgrown).mono Guarded.any fun _ _ h => h).bind
  intro result t2 ht2
  cases result with
  | error reason => exact (hcleanup t2 ht2).bind fun _ _ h => h
  | ok _ =>
    apply ((safe_of_adds (adds_copyAll _ includeTimelapse) ht2).mono Guarded.any fun _ _ h => h).bind
    intro result t3 ht3
    cases result with
    | error reason => exact (hcleanup t3 ht3).bind fun _ _ h => h
    | ok _ => exact ht3

end Backup

section Runs

variable {s} {v : Fs} {Z : Path → Prop} {A : Chance Content → Prop} {t : Log}

theorem of_safetyReason (h : s.safetyReason v = "") :
    ∃ P, v.Reaches s.prusaCamDir P ∧ within P (s.realRoot v) = true := by
  have hdir : v.isdir s.prusaCamDir = true ∧ within (s.real v s.prusaCamDir) (s.realRoot v) = true := by
    unfold safetyReason at h
    repeat' split at h
    all_goals first
      | exact absurd h (by decide)
      | exact ⟨Bool.eq_true_of_not_eq_false ‹_›, Bool.eq_true_of_not_eq_false ‹_›⟩
  obtain ⟨P, hP, -⟩ := Volume.reaches_of_isdir hdir.1
  refine ⟨P, hP, ?_⟩
  rw [← real_of_reaches hP]
  exact hdir.2

def Allowed (s : Setup) (v : Fs) (includeTimelapse : Bool) (timestamp : String) (p : Path) : Prop :=
  s.realRoot v <+: p ∧ s.Own v includeTimelapse timestamp p

theorem covers_of_grown {w : Fs} {P : Path} {includeTimelapse : Bool} {timestamp : String}
    (hgrown : Volume.Grown v w) (hP : v.Reaches s.prusaCamDir P) (hin : within P (s.realRoot v) = true) :
    s.Covers w includeTimelapse (s.Allowed v includeTimelapse timestamp) := by
  have hreal {r : Route} {d : Path} (hd : w.Reaches r d) : s.real v r = d :=
    (hgrown.realpath s.hops r).symm.trans (real_of_reaches hd)
  have hroot : s.realRoot w = s.realRoot v := hgrown.realpath s.hops s.root
  refine ⟨fun d hd p hin hbelow => ?_, fun hinclude d hd p hin hbelow => ?_, fun d hd name hname => ?_⟩
  · rw [← hreal hd] at hbelow
    exact ⟨hroot ▸ hin, Or.inl hbelow⟩
  · rw [← hreal hd] at hbelow
    exact ⟨hroot ▸ hin, Or.inr (Or.inl ⟨hinclude, hbelow⟩)⟩
  · rw [← hd.unique (hgrown.reaches hP)] at hin
    refine ⟨(prefix_of_within hin).trans (List.prefix_append _ _), Or.inr (Or.inr (Or.inl ⟨name, hname, ?_⟩))⟩
    rw [hreal hd]

theorem safe_perform (times : Times) (includeTimelapse : Bool)
    (hbackups : within (s.real v s.backupsDir) (s.realRoot v) = true)
    (hZ : Z = s.Allowed v includeTimelapse times.timestamp) (ht : Guarded Z (· = v) t) :
    (s.perform times includeTimelapse).Keeps journal A (Guarded Z fun _ => True) t := by
  apply safe_look_weaken ht Guarded.any
  intro t1 _ ht1
  have hstate : t.state = v := ht.state
  rw [hstate]
  split_ifs with hsafety
  · exact ht1.any
  obtain ⟨P, hP, hin⟩ := of_safetyReason (not_not.mp hsafety)
  have hbackup (q : Path) (hq : s.real v s.backupsDir ++ [s.uniqueBackup v times.timestamp] <+: q) : Z q := by
    rw [hZ]
    refine ⟨?_, Or.inr (Or.inr (Or.inr hq))⟩
    exact ((prefix_of_within hbackups).trans (List.prefix_append _ _)).trans hq
  apply (safe_createBackup times.timestamp includeTimelapse hbackup ht1).bind
  intro result t2 h2
  cases result with
  | error reason => exact h2
  | ok backup =>
    -- from here on everything is seen from the volume with the backup
    have hcovers : s.Covers t2.state includeTimelapse Z := hZ ▸ covers_of_grown h2.state hP hin
    have hnow : Guarded Z (· = t2.state) t2 := ⟨h2.log, rfl⟩
    apply ((safe_deleteTargets hcovers hnow).mono Guarded.any fun _ _ h => h).bind
    intro result t3 ht3
    cases result with
    | error reason => exact ht3.any
    | ok done =>
      apply (safe_writePendingDeletion hcovers backup times.timestamp times.createdAt ht3).bind
      intro result t4 ht4
      cases result with
      | error reason => exact ht4
      | ok _ => exact ht4

theorem safe_execute (f : FactoryReset) (token : Option String) (times : Times) (includeTimelapse : Bool)
    (hbackups : within (s.real v s.backupsDir) (s.realRoot v) = true)
    (hZ : Z = s.Allowed v includeTimelapse times.timestamp) (ht : Guarded Z (· = v) t) :
    (f.execute s token includeTimelapse times).Keeps journal A (Guarded Z fun _ => True) t := by
  unfold FactoryReset.execute
  cases f.gate token with
  | some reason => exact ht.any
  | none => exact (safe_perform times includeTimelapse hbackups hZ ht).bind fun _ _ h => h

/-- The entries that `finalize_after_claimed_boot` is there to take away: the marker, and the backup that it names, by
its real place among the backups. -/
def OwnBackup (s : Setup) (v : Fs) (p : Path) : Prop :=
  p = s.real v s.prusaCamDir ++ ["pending-deletion.json"] ∨
  ∃ marker path, s.pendingDeletion v = some marker ∧ marker.backupPath = some path ∧ v.islink (route path) = false ∧
    s.real v s.backupsDir <+: s.real v (route path) ∧ s.real v (route path) <+: p

def NamesBackup (s : Setup) (v : Fs) : Prop :=
  ∀ marker path, s.pendingDeletion v = some marker → marker.backupPath = some path → Named ((parts path).getLastD "")

theorem route_eq_join {path : String} (hlast : Named ((parts path).getLastD "")) :
    route path = (⟨isabs path, (parts path).dropLast⟩ : Route).join [(parts path).getLastD ""] := by
  have hne : parts path ≠ [] := by
    intro hnil
    rw [hnil] at hlast
    exact hlast.1 rfl
  have hsplit : (parts path).dropLast ++ [(parts path).getLastD ""] = parts path := by
    rcases List.eq_nil_or_concat' (parts path) with hnil | ⟨init, last, hconcat⟩
    · exact absurd hnil hne
    · rw [hconcat, List.dropLast_concat, List.getLastD_concat]
  rw [route, Route.join, hsplit]

theorem safe_finalize (claimed : Bool) (hnames : s.NamesBackup v)
    (hZ : Z = fun p => s.realRoot v <+: p ∧ s.OwnBackup v p) (ht : Guarded Z (· = v) t) :
    (s.finalizeAfterClaimedBoot claimed).Keeps journal A (Guarded Z (Volume.Tied v)) t := by
  have hweaken (t' : Log) (h : Guarded Z (· = v) t') : Guarded Z (Volume.Tied v) t' :=
    h.imp fun u hu => hu ▸ .refl v
  apply safe_look_weaken ht hweaken
  intro t1 _ hsame
  have ht1 := hweaken t1 hsame
  have hstate : t.state = v := ht.state
  rw [hstate]
  split
  · exact ht1
  rename_i hsafety
  obtain ⟨P, hP, hin⟩ := of_safetyReason (not_not.mp hsafety)
  have hmarker (u : Fs) (hu : Volume.Tied v u) (p : Path) (hp : u.entry s.pendingDeletionPath = some p) : Z p := by
    refine Aims.entry ⟨s.prusaCamDir, "pending-deletion.json",
      s.under_append ["pibuddycam"] ["pending-deletion.json"], by decide, fun d hd => ?_⟩ hu hp
    rw [← hd.unique hP] at hin
    rw [hZ]
    refine ⟨(prefix_of_within hin).trans (List.prefix_append _ _), Or.inl ?_⟩
    rw [real_of_reaches hd]
  cases hpending : s.pendingDeletion v with
  | none => exact ht1
  | some marker =>
    dsimp only
    cases hpath : marker.backupPath.filter (· ≠ "") with
    | none => exact ht1
    | some path =>
      dsimp only
      have hfield : marker.backupPath = some path := (Option.filter_eq_some_iff.mp hpath).1
      split_ifs with hlink hnull hout hclaimed hexists
      · exact ht1
      · exact ht1
      · exact ht1
      · exact ht1
      · rw [Bool.not_eq_true] at hlink
        rw [Bool.not_eq_true, Bool.or_eq_false_iff, Bool.not_eq_false', Bool.not_eq_false'] at hout
        have hlast := hnames marker path hpending hfield
        have hjoin := route_eq_join hlast
        have hzone (d q : Path) (hd : v.Reaches ⟨isabs path, (parts path).dropLast⟩ d)
            (_ : t1.state.node (d ++ [(parts path).getLastD ""]) = some .dir)
            (hq : d ++ [(parts path).getLastD ""] <+: q) : Z q := by
          -- the entry is no link, so it is the real place itself
          have hreal : s.real v (route path) = d ++ [(parts path).getLastD ""] := by
            rw [hjoin]
            exact real_join hd hlast (hjoin ▸ hlink)
          rw [← hreal] at hq
          rw [hZ]
          exact ⟨(prefix_of_within hout.1).trans hq,
            Or.inr ⟨marker, path, hpending, hfield, hlink, prefix_of_within hout.2, hq⟩⟩
        have hrmtree := safe_rmtree (A := A) false s.depth hlast hzone ht1
        rw [← hjoin] at hrmtree
        apply hrmtree.bind
        intro result t2 ht2
        cases result with
        | error e => exact ht2
        | ok _ => exact (safe_remove (hmarker _ ht2.state) ht2).bind fun _ _ h => h
      · exact (safe_remove (hmarker _ ht1.state) ht1).bind fun _ _ h => h

end Runs

end Setup

/-- Every entry that a run of `execute` takes away, or tries to, is inside the real data root and one of its own, if the
directory of the backups is inside it; and so is every one of `finalize_after_claimed_boot`, if the marker names its
backup by a path that ends in a name. The places are real ones: the target of a link goes only where it is such an
entry itself. -/
theorem removals_inside_root (s : Setup) (v : Fs) :
    (∀ (f : FactoryReset) (token : Option String) (includeTimelapse : Bool) (times : Times) (cs : List (Chance Content)),
      within (s.real v s.backupsDir) (s.realRoot v) = true →
      ∀ e ∈ ((f.execute s token includeTimelapse times).exec journal cs ⟨v, []⟩).2.log, ∀ p ∈ e.1.removed,
        s.realRoot v <+: p ∧ s.Own v includeTimelapse times.timestamp p) ∧
    ∀ (claimed : Bool) (cs : List (Chance Content)), s.NamesBackup v →
      ∀ e ∈ ((s.finalizeAfterClaimedBoot claimed).exec journal cs ⟨v, []⟩).2.log, ∀ p ∈ e.1.removed,
        s.realRoot v <+: p ∧ s.OwnBackup v p := by
  have hstart {Z : Path → Prop} {J : Fs → Prop} (hJ : J v) : Guarded Z J ⟨v, []⟩ := ⟨List.forall_mem_nil _, hJ⟩
  constructor
  · intro f token includeTimelapse times cs hbackups
    have hsafe := Setup.safe_execute (A := fun _ => True) f token times includeTimelapse hbackups rfl (hstart rfl)
    exact (hsafe.exec (hstart trivial) fun _ _ => trivial).1.log
  · intro claimed cs hnames
    have hsafe := Setup.safe_finalize (A := fun _ => True) claimed hnames rfl (hstart rfl)
    exact (hsafe.exec (hstart (.refl v)) fun _ _ => trivial).1.log

def armed : FactoryReset := { token := "t", begun := true, confirmed := true }

def configured : Fs :=
  Volume.ofEntries [([], .dir), (["data"], .dir), (["data", "pibuddycam"], .dir), (["data", "pibuddycam", "backups"], .dir),
    (["data", "pibuddycam", "config"], .dir), (["data", "pibuddycam", "config", "device.toml"], .file 0),
    (["data", "pibuddycam", "state.json"], .file 1)] (fun _ => .regular []) 2 [] (by decide)

theorem configured_removals_inside :
    configured.exists? (({} : Setup).under ["pibuddycam", "config", "device.toml"]) = true ∧
    ∀ e ∈ ((armed.execute {} (some "t") true ⟨"0", ""⟩).exec journal (List.replicate 60 {}) ⟨configured, []⟩).2.log,
      ∀ p ∈ e.1.removed, ({} : Setup).realRoot configured <+: p ∧ ({} : Setup).Own configured true "0" p := by
  constructor
  · decide +kernel
  · exact (removals_inside_root {} configured).1 armed (some "t") true ⟨"0", ""⟩ _ (by decide +kernel)

def linkedBackups : Fs :=
  Volume.ofEntries [([], .dir), (["data"], .dir), (["data", "pibuddycam"], .dir), (["mnt"], .dir),
    (["data", "pibuddycam", "backups"], .link ⟨true, ["", "mnt"]⟩)] (fun _ => .regular []) 0 [] (by decide)

/-- A link among the backups, and a marker that names it with a slash at the end. -/
def slashMarker : Fs :=
  Volume.ofEntries [([], .dir), (["data"], .dir), (["data", "pibuddycam"], .dir), (["data", "pibuddycam", "backups"], .dir),
    (["data", "pibuddycam", "backups", "kept"], .dir), (["data", "pibuddycam", "backups", "kept", "device.toml"], .file 0),
    (["data", "pibuddycam", "backups", "link"], .link ⟨false, ["kept"]⟩),
    (["data", "pibuddycam", "pending-deletion.json"], .file 1)] (fun _ => .regular []) 2 [] (by decide)

def secondFails : List (Chance Content) :=
  List.replicate 7 ({} : Chance Content) ++ { fails := true } :: List.replicate 9 ({} : Chance Content)

def slashSetup : Setup := { loads := fun _ => some { backupPath := some "/data/pibuddycam/backups/link/" } }

/-- The directory that a failed backup has made outside the data root is deleted there; and the content of the
directory that a link leads to is, where the path of the link has a slash at its end. -/
theorem removal_outside_and_through_link :
    (({} : Setup).realRoot linkedBackups = ["data"] ∧
      (((armed.execute {} (some "t") true ⟨"0", ""⟩).exec journal (secondFails.take 8) ⟨linkedBackups, []⟩).2.state.node
        ["mnt", "factory-reset-0"] = some .dir ∧
      ((armed.execute {} (some "t") true ⟨"0", ""⟩).exec journal secondFails ⟨linkedBackups, []⟩).2.state.node
        ["mnt", "factory-reset-0"] = none)) ∧
    (slashMarker.islink (route "/data/pibuddycam/backups/link") = true ∧
      ((slashSetup.finalizeAfterClaimedBoot true).exec journal (List.replicate 9 {}) ⟨slashMarker, []⟩).2.state.node
        ["data", "pibuddycam", "backups", "kept", "device.toml"] = none) := by
  refine ⟨⟨?_, ?_, ?_⟩, ?_, ?_⟩
  all_goals decide +kernel

end PiBuddyCam.Reset
