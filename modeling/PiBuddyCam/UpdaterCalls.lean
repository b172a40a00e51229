import PiBuddyCam.UpdaterPhases

/-! Which calls the parts of an install make, apart from the switch and the rollback. -/
namespace PiBuddyCam.Updater

variable {P : Op → Prop}

def Effect.Prepares (staging : String) : Effect → Prop
  | .download _ st | .verifyManifestSignature _ st | .verifyBundleSignature st _ | .extract st _ _
  | .buildVenv st _ | .preflight st _ => st = staging
  | .stopServices => True
  | _ => False

/-- The calls between the making of a staging directory and the switch. -/
def Op.Prepares (staging : String) : Op → Prop
  | .look | .freeSpace => True
  | .isfile st _ | .getsize st _ | .removeIn st _ => st = staging
  | .effect e => e.Prepares staging
  | _ => False

theorem effect_within {e : Effect} (h : P (.effect e)) : (effect e).Within P := ⟨h, fun _ => trivial⟩

theorem demand_within {e : Effect} (h : P (.effect e)) (text : String) : (demand e text).Within P :=
  Prog.Within.bind (effect_within h) fun _ => trivial

theorem failed_within (h : P .look) (a : InstallArgs) (version : String) (reason : Val) :
    (failed a version reason).Within P := ⟨h, fun _ => trivial⟩

theorem stopped_within (h : P .look) (a : InstallArgs) (version : String) (quiesced : Bool) (stop : Stop) :
    (stopped a version quiesced stop).Within P := by
  cases stop with
  | reason value => exact .bind (failed_within h a version value) fun _ => trivial
  | raised error => trivial

theorem verifyAndExtract_within (m : Manifest) (staging bundle : String) :
    (verifyAndExtract m staging bundle).Within (Op.Prepares staging) := by
  refine .opBind rfl fun (present : Bool) => ?_
  split_ifs
  · trivial
  refine .bind (demand_within (by exact rfl) _) ?_
  rintro (stop | _)
  · trivial
  refine .bind (demand_within (by exact rfl) _) ?_
  rintro (stop | _)
  · trivial
  refine .bind (p := checkSize staging bundle m.bundleSize) ⟨rfl, fun r => by cases r <;> trivial⟩ ?_
  rintro (stop | _)
  · trivial
  refine .bind (demand_within (by exact rfl) _) ?_
  rintro (stop | _)
  · trivial
  exact .bind (attempt_within rfl) fun _ => trivial

theorem fetchBundle_within (m : Manifest) (staging : String) :
    (fetchBundle m staging).Within (Op.Prepares staging) := by
  refine .bind (p := checkFreeSpace m.bundleSize) ⟨trivial, fun r => by cases r <;> trivial⟩ ?_
  rintro (stop | _)
  · trivial
  refine .bind (demand_within (by exact rfl) _) ?_
  rintro (stop | value)
  · trivial
  exact verifyAndExtract_within m staging _

theorem buildRelease_within (fx : Effects) (m : Manifest) (staging : String) :
    (buildRelease fx m staging).Within (Op.Prepares staging) := by
  have hstop : (if fx.stopServices then demand .stopServices "could not quiesce the camera runtime"
      else pure (.ok (.str "")) : Run (Except Stop Val)).Within (Op.Prepares staging) := by
    split_ifs
    · exact demand_within trivial _
    · trivial
  refine .bind hstop ?_
  rintro (stop | _)
  · trivial
  refine .bind (demand_within (by exact rfl) _) ?_
  rintro (stop | _)
  · trivial
  refine .bind (demand_within (by exact rfl) _) ?_
  rintro (stop | _)
  · trivial
  · trivial

theorem pollHealth_within (hcheck : ∀ v, P (.effect (.healthCheck v))) (hclock : P .clock)
    (hsleep : ∀ s, P (.sleep s)) (version : String) (deadline : ℚ) (attempts : ℕ) :
    (pollHealth version deadline attempts).Within P := by
  induction attempts with
  | zero => trivial
  | succ n ih =>
    refine .opBind (hcheck _) fun r => ?_
    split_ifs
    · trivial
    refine .opBind hclock fun now => ?_
    split_ifs
    · trivial
    refine .opBind (hsleep _) fun slept => ?_
    split_ifs
    · exact ih
    · trivial

theorem waitForHealth_within (hcheck : ∀ v, P (.effect (.healthCheck v))) (hclock : P .clock)
    (hsleep : ∀ s, P (.sleep s)) (version : String) : (waitForHealth version).Within P :=
  .opBind hclock fun _ => pollHealth_within hcheck hclock hsleep version _ _

/-- The calls of `_atomic_symlink`. -/
structure Swapping (P : Op → Prop) (pid : ℕ) (link : String) : Prop where
  makedirs : P .makedirs
  symlink : ∀ target, P (.symlink target (tmpLink pid link))
  replace : P (.replace (tmpLink pid link) link)
  remove : P (.remove (tmpLink pid link))

variable {pid : ℕ}

theorem atomicSymlink_within {link : String} (h : Swapping P pid link) (target : Loc) :
    (atomicSymlink pid target link).Within P := by
  refine .opBind h.makedirs ?_
  rintro (e | _)
  · trivial
  refine .opBind (h.symlink target) ?_
  rintro (e | _)
  · exact .bind (attempt_within h.remove) fun _ => trivial
  refine .opBind h.replace ?_
  rintro (e | _)
  · exact .bind (attempt_within h.remove) fun _ => trivial
  · trivial

theorem switchRelease_within {staging version : String} (hlook : P .look) (hchmod : P (.chmod staging))
    (hrename : isSemver version = true → P (.rename staging version)) (hprev : Swapping P pid previousLink)
    (hcur : Swapping P pid currentLink) (hremove : isSemver version = true → Removing P version) :
    (switchRelease pid staging version).Within P := by
  unfold switchRelease
  split_ifs with hsem
  · trivial
  have hv : isSemver version = true := Bool.not_eq_false _ ▸ hsem
  refine .opBind hlook fun (d : Disk) => ?_
  split_ifs
  · trivial
  refine .opBind hchmod ?_
  rintro (e | _)
  · trivial
  refine .opBind hlook fun (d : Disk) => ?_
  refine .opBind (hrename hv) ?_
  rintro (e | _)
  · trivial
  refine .bind (atomicSymlink_within hprev _) ?_
  rintro (e | _)
  · exact .bind (rmtree_within (hremove hv)) fun _ => trivial
  refine .bind (atomicSymlink_within hcur _) ?_
  rintro (e | _)
  · exact .bind (rmtree_within (hremove hv)) fun _ => trivial
  · trivial

theorem rollback_within (hread : P (.readlink previousLink)) (hlook : P .look)
    (hswap : Swapping P pid currentLink) (hdrop : P (.remove currentLink)) : (rollback pid).Within P := by
  refine .opBind hread ?_
  intro (previous : Except String Loc)
  refine .opBind hlook fun (d : Disk) => ?_
  have hgiveUp : (do removeFile currentLink; pure false : Run Bool).Within P :=
    Prog.Within.bind (attempt_within hdrop) fun _ => trivial
  cases previous with
  | error e => exact hgiveUp
  | ok target =>
    dsimp only
    split_ifs
    · exact .bind (atomicSymlink_within hswap target) fun _ => trivial
    · exact hgiveUp

theorem versionDirs_bind_within {β : Type} {g : List String → Run β} (hlook : P .look) (hlist : P .listdir)
    (hg : ∀ versions, (∀ x ∈ versions, isSemver x = true) → (g versions).Within P) : (versionDirs >>= g).Within P := by
  refine ⟨hlist, fun names => ⟨hlook, fun (d : Disk) => hg _ fun x hx => ?_⟩⟩
  exact (Bool.and_eq_true _ _ ▸ (List.mem_filter.mp hx).2).2

theorem recoverInterrupted_within (hlook : P .look) (hlist : P .listdir)
    (hstaging : ∀ x, isStagingName x = true → Removing P x) (hversion : ∀ x, isSemver x = true → Removing P x)
    (hswap : Swapping P pid currentLink) (hdrop : P (.remove currentLink)) : (recoverInterrupted pid).Within P := by
  have hrepairTarget : repairTarget.Within P := ⟨hlist, fun _ => ⟨hlook, fun _ => trivial⟩⟩
  have hrepair (newest : Option String) : (repairCurrent pid newest).Within P := by
    refine .opBind hlook fun (d : Disk) => ?_
    dsimp only
    split
    · refine .bind (atomicSymlink_within hswap _) ?_
      rintro (e | _)
      · trivial
      · trivial
    · exact .bind (attempt_within hdrop) fun _ => trivial
  have hloops (entries referenced : List String) (f : List String → List String → Run RecoveryReport)
      (hf : ∀ staging orphans, (f staging orphans).Within P) :
      (do
        let staging ← removeDirs isStagingDir entries
        let versions ← versionDirs
        let orphans ← removeDirs (fun _ name => !referenced.contains name) versions
        f staging orphans : Run RecoveryReport).Within P := by
    refine .bind (removeDirs_within hlook _ entries fun x _ d hx => hstaging x ?_) fun _ => ?_
    · exact (Bool.and_eq_true _ _ ▸ hx).1
    refine versionDirs_bind_within hlook hlist fun versions hversions => ?_
    exact .bind (removeDirs_within hlook _ _ fun x hx _ _ => hversion x (hversions x hx)) fun _ => hf _ _
  refine .opBind hlook fun (d : Disk) => ?_
  split_ifs
  · trivial
  refine .opBind hlist ?_
  rintro (e | entries)
  · trivial
  refine .opBind hlook fun (d : Disk) => ?_
  dsimp only
  split_ifs
  · refine .bind hrepairTarget fun newest => ?_
    exact hloops entries _ _ fun _ _ => Prog.Within.bind (hrepair newest) fun _ => trivial
  · exact hloops entries _ _ fun _ _ => trivial

theorem defaultPrune_within (hlook : P .look) (hlist : P .listdir)
    (hremove : ∀ x, isSemver x = true → Removing P x) (kept : List String) : (defaultPrune kept).Within P := by
  refine .opBind hlook fun d => ?_
  refine .opBind hlist ?_
  rintro (e | entries)
  · trivial
  refine removeDirs_within hlook _ entries fun x _ d hx => hremove x ?_
  exact (Bool.and_eq_true _ _ ▸ (Bool.and_eq_true _ _ ▸ hx).2).2

theorem cleanUp_within (hlook : P .look) (hrestart : ∀ v, P (.effect (.restartServices v)))
    {staging : String} (hremove : Removing P staging) (version : String) (out : Attempt) :
    (cleanUp version staging out).Within P := by
  have hrest : (do
      let d ← look
      if d.exists? (.entry staging) then rmtree staging : Run Unit).Within P := by
    refine .opBind hlook fun (d : Disk) => ?_
    split_ifs
    · exact rmtree_within hremove
    · trivial
  unfold cleanUp
  split_ifs
  · refine .opBind hlook fun (d : Disk) => ?_
    exact .bind (effect_within (hrestart _)) fun _ => hrest
  · exact hrest

theorem recordBadRelease_within (hmake : P (.makedirsIn badDir)) (hopen : ∀ f, P (.openIn badDir f))
    (hwrite : ∀ f, P (.writeIn badDir f)) (hreplace : ∀ f f', P (.replaceIn badDir f f')) (pid : ℕ)
    (version : String) : (recordBadRelease pid version).Within P := by
  refine .opBind hmake ?_
  rintro (e | _)
  · trivial
  refine .opBind (hopen _) ?_
  rintro (e | _)
  · trivial
  refine .opBind (hwrite _) ?_
  rintro (e | _)
  · trivial
  exact ⟨hreplace _ _, fun _ => trivial⟩

theorem quiet_of_prepares {S : String → Prop} {staging : String} (hS : S staging) {o : Op}
    (ho : o.Prepares staging) : o.Quiet S := by
  cases o with
  | look => exact quiet_look S
  | freeSpace => exact quiet_of_read (fun _ h => h) (fun p _ => by cases p <;> rfl)
  | isfile st f => exact quiet_of_read (fun _ h => h) (fun p _ => by cases p <;> rfl)
  | getsize st f => exact quiet_of_read (fun _ h => h) (fun p _ => by cases p <;> rfl)
  | removeIn st f =>
    obtain rfl : st = staging := ho
    exact (removing_quiet hS).removeIn f
  | effect e =>
    refine ⟨?_, ?_⟩
    · intro x hx
      cases e <;> cases hx <;> exact (ho : _ = staging) ▸ hS
    · intro p r
      cases e <;> first
        | exact ho.elim
        | (cases p <;> rfl)
  | _ => exact ho.elim

theorem latestVersion_none (installedVersion reason : String) :
    (installStateDocument installedVersion none reason).latestVersion = "" := by
  have hnone : boundedText "" 64 = "" := by decide
  exact hnone

-- the length of a document is never computed here
attribute [local irreducible] UpdateState.encodedLength installStateDocument

/-- The calls of the commands beside recovery and install. They change no entry of the
releases directory. -/
def Op.Reports : Op → Prop
  | .look | .listIn _ | .clock | .uniform | .readLastCheck | .writeLastCheck _ | .writeUpdateState _
  | .applicationVersion | .makeTemp | .fetchManifest | .manifestIsFile | .readManifest | .effect .verifyFile => True
  | _ => False

def Op.Checks : Op → Prop
  | .listIn _ | .clock | .uniform | .readLastCheck | .writeLastCheck _ | .makeTemp | .fetchManifest
  | .effect .verifyFile => True
  | _ => False

theorem reports_of_checks {o : Op} (ho : o.Checks) : o.Reports := by
  cases o with
  | effect e =>
    cases e with
    | verifyFile => trivial
    | _ => exact ho.elim
  | listIn | clock | uniform | readLastCheck | writeLastCheck | makeTemp | fetchManifest => trivial
  | _ => exact ho.elim

theorem quiet_of_reports {S : String → Prop} {o : Op} (ho : o.Reports) : o.Quiet S := by
  cases o with
  | effect e =>
    cases e with
    | verifyFile => exact ⟨fun x hx => (nomatch hx), fun p _ => by cases p <;> rfl⟩
    | _ => exact ho.elim
  | look | listIn | clock | uniform | readLastCheck | writeLastCheck | writeUpdateState | applicationVersion
  | makeTemp | fetchManifest | manifestIsFile | readManifest =>
    exact quiet_of_read (fun _ h => h) (fun p _ => by cases p <;> rfl)
  | _ => exact ho.elim

def Op.ReportsOn (D : UpdateState → Prop) : Op → Prop
  | .writeUpdateState doc => D doc
  | o => o.Reports

theorem Op.ReportsOn.reports {D : UpdateState → Prop} {o : Op} (ho : o.ReportsOn D) : o.Reports := by
  cases o with
  | writeUpdateState doc => trivial
  | _ => exact ho

def UpdateState.Empty (doc : UpdateState) : Prop := doc.latestVersion = ""

theorem writeState_reports {D : UpdateState → Prop} {installedVersion : String} {manifest : Option Manifest}
    {reason : String} (h : D (installStateDocument installedVersion manifest reason)) :
    (writeState installedVersion manifest reason).Within (Op.ReportsOn D) := by
  unfold writeState writeUpdateState
  split_ifs
  · trivial
  · exact attempt_within h

theorem writeState_empty (installedVersion reason : String) :
    (writeState installedVersion none reason).Within (Op.ReportsOn UpdateState.Empty) :=
  writeState_reports (latestVersion_none installedVersion reason)

theorem writeState_within (installedVersion : String) (manifest : Option Manifest) (reason : String) :
    (writeState installedVersion manifest reason).Within Op.Reports :=
  (writeState_reports (D := fun _ => True) trivial).mono fun _ => Op.ReportsOn.reports

theorem resolveVersions_within (override : String) : (resolveVersions override).Within Op.Reports := by
  unfold resolveVersions
  split_ifs
  · trivial
  refine .opBind trivial fun (d : Disk) => ?_
  split_ifs
  · trivial
  exact ⟨trivial, fun _ => trivial⟩

theorem readBadVersions_within : readBadVersions.Within Op.Reports := ⟨trivial, fun _ => trivial⟩

theorem checked_within (now interval : ℚ) (outcome : CheckOutcome) (manifest : Option Manifest) (reason : String) :
    (checked now interval outcome manifest reason).Within Op.Checks :=
  Prog.Within.bind (attempt_within trivial) fun _ => trivial

theorem checkDue_within (h : Host) (a : CheckArgs) (now interval : ℚ) : (checkDue h a now interval).Within Op.Checks := by
  unfold checkDue
  split
  · trivial
  refine .bind (by split_ifs; exacts [effect_within trivial, trivial]) ?_
  rintro ⟨ok, reason⟩
  dsimp only
  split_ifs
  · exact checked_within now interval .invalid none _
  split
  · exact checked_within _ _ _ _ _
  · unfold classifyUpdate
    split_ifs
    · exact checked_within _ _ _ _ _
    split <;> exact checked_within _ _ _ _ _

theorem checkForUpdate_within (h : Host) (a : CheckArgs) : (checkForUpdate h a).Within Op.Checks := by
  refine .opBind trivial fun now => ?_
  refine .opBind trivial fun offset => ?_
  refine .opBind trivial ?_
  rintro (e | last)
  · trivial
  dsimp only
  split
  · trivial
  · exact checkDue_within h a _ _

variable (display : String)

theorem writeCheckState_within (result : CheckResult) :
    (writeCheckState display result).Within Op.Reports := by
  unfold writeCheckState
  split <;> exact .bind (writeState_within _ _ _) fun _ => trivial

theorem locateManifest_empty (source : ManifestSource) :
    (locateManifest display source).Within (Op.ReportsOn UpdateState.Empty) := by
  cases source with
  | path =>
    refine .opBind trivial fun (found : Bool) => ?_
    split_ifs
    · trivial
    exact .bind (writeState_empty _ _) fun _ => trivial
  | url =>
    refine .opBind trivial ?_
    rintro (e | _)
    · trivial
    refine .opBind trivial ?_
    rintro (e | _)
    · exact .bind (writeState_empty _ _) fun _ => trivial
    · trivial
  | none => exact .bind (writeState_empty _ _) fun _ => trivial

theorem locateManifest_within (source : ManifestSource) :
    (locateManifest display source).Within Op.Reports :=
  (locateManifest_empty display source).mono fun _ => Op.ReportsOn.reports

theorem loadManifest_empty (h : Host) (display : String) :
    (loadManifest h display).Within (Op.ReportsOn UpdateState.Empty) := by
  refine .bind (effect_within trivial) ?_
  rintro ⟨ok, reason⟩
  dsimp only
  split_ifs
  · exact .bind (writeState_empty _ _) fun _ => trivial
  refine .opBind trivial ?_
  rintro (e | _ | text)
  · exact .bind (writeState_empty _ _) fun _ => trivial
  · trivial
  dsimp only
  split
  · exact .bind (writeState_empty _ _) fun _ => trivial
  · trivial

theorem loadManifest_within (h : Host) (display : String) : (loadManifest h display).Within Op.Reports :=
  (loadManifest_empty h display).mono fun _ => Op.ReportsOn.reports

end PiBuddyCam.Updater
