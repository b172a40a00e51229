import PiBuddyCam.TraceOrder
import PiBuddyCam.UpdaterRuns

/-! The results of a check, and what a check that is not due does to the Home Assistant
update-state document. -/
namespace PiBuddyCam.Updater

attribute [local irreducible] writeState

def notDueReason : String := "update check is not due yet"

def CheckResult.Avoids (bad : List String) (r : CheckResult) : Prop :=
  r.outcome = .available → ∀ m, r.manifest = some m → m.version ∉ bad

/-- What `check_for_update` may return: a check that was skipped, or one that was made. -/
inductive CheckResult.From (a : CheckArgs) : CheckResult → Prop
  | skipped (next : ℚ) : From a ⟨false, .upToDate, none, notDueReason, next⟩
  | made {r : CheckResult} : r.checked = true → (a.forceReinstall = false → r.Avoids a.badVersions) → From a r

theorem CheckResult.From.avoids {a : CheckArgs} {r : CheckResult} (h : r.From a) (hforce : a.forceReinstall = false) :
    r.Avoids a.badVersions := by
  cases h with
  | skipped next => exact fun he => nomatch he
  | made _ havoids => exact havoids hforce

/-- A check is skipped, or comes to nothing that can be shown, or to a manifest whose
version is not in the list. -/
theorem log_checkForUpdate_of {Q : CheckResult → Prop} (h : Host) (a : CheckArgs) (log : List Entry)
    (hskip : ∀ next, Q ⟨false, .upToDate, none, notDueReason, next⟩)
    (hother : ∀ r : CheckResult, r.checked = true → r.outcome ≠ .available → r.outcome ≠ .upToDate → Q r)
    (hparsed : ∀ payload m outcome reason next, parseManifest h payload = .ok m →
      (a.forceReinstall = false → m.version ∉ a.badVersions) → Q ⟨true, outcome, some m, reason, next⟩) :
    (checkForUpdate h a).LogSafe (fun _ => True) (fun r _ => Q r) log := by
  have hchecked (now interval : ℚ) (outcome : CheckOutcome) (manifest : Option Manifest) (reason : String)
      (hr : Q ⟨true, outcome, manifest, reason, now+interval⟩) (log : List Entry) :
      (checked now interval outcome manifest reason).LogSafe (fun _ => True) (fun r _ => Q r) log :=
    fun _ _ => ⟨trivial, hr⟩
  refine Prog.logSafe_op_bind fun now => ⟨trivial, ?_⟩
  refine Prog.logSafe_op_bind fun offset => ⟨trivial, ?_⟩
  refine Prog.logSafe_op_bind fun (last : Except String (Option ℚ)) => ⟨trivial, ?_⟩
  cases last with
  | error e => exact hother _ rfl nofun nofun
  | ok last =>
    dsimp only
    split
    · exact hskip _
    unfold checkDue
    split
    · exact hother _ rfl nofun nofun
    rename_i payload _
    refine .bind (Q := fun _ _ => True) ?_ ?_
    · split_ifs
      · exact fun _ _ => ⟨trivial, trivial⟩
      · trivial
    rintro ⟨ok, reason⟩ log _
    dsimp only
    split_ifs
    · exact hchecked _ _ .invalid none _ (hother _ rfl nofun nofun) log
    split
    · exact hchecked _ _ .invalid none _ (hother _ rfl nofun nofun) log
    rename_i manifest hmanifest
    unfold classifyUpdate
    split_ifs with hbad
    · exact hchecked _ _ .suppressed _ _ (hother _ rfl nofun nofun) log
    rw [Bool.and_eq_true, decide_eq_true_eq, not_and, List.contains_iff_mem] at hbad
    split
    · exact hchecked _ _ _ _ _ (hparsed payload _ _ _ _ hmanifest hbad) log
    · exact hchecked _ _ _ _ _ (hparsed payload _ _ _ _ hmanifest hbad) log

theorem log_checkForUpdate (h : Host) (a : CheckArgs) (log : List Entry) :
    (checkForUpdate h a).LogSafe (fun _ => True) (fun r _ => r.From a) log := by
  refine log_checkForUpdate_of h a log .skipped (fun r hchecked hne _ => ?_) ?_
  · exact .made hchecked fun _ he => absurd he hne
  · intro payload manifest outcome reason next _ hgood
    refine .made rfl fun hforce _ m hm => ?_
    rw [← Option.some.inj hm]
    exact hgood hforce

def textOf : Entry → Option String
  | ⟨.applicationVersion, text⟩ => some text
  | _ => none

/-- The version that `_resolve_versions` displays. -/
def shownVersion (override : String) (t : Journal) : String :=
  if override ≠ "" then override
  else if activeVersion t.state.disk ≠ "" then activeVersion t.state.disk
  else (t.log.findSome? textOf).getD ""

def skipDocument (shown : String) : UpdateState := installStateDocument shown none notDueReason

attribute [local irreducible] skipDocument UpdateState.encodedLength

def Wrote (doc : UpdateState) (log : List Entry) : Prop := (⟨.writeUpdateState doc, .ok ()⟩ : Entry) ∈ log

/-- The document is as in `w`, and no call has tried to write it. -/
structure Untold (w : World) (t : Journal) : Prop where
  updateState : t.state.updateState = w.updateState
  noWrite : ∀ doc r, (⟨.writeUpdateState doc, r⟩ : Entry) ∉ t.log

def Op.Silent : Op → Prop
  | .writeUpdateState _ | .applicationVersion => False
  | _ => True

variable {o : Op}

theorem updateState_step (ho : o.Silent) (w : World) (c : Choice) :
    (worldStep w o c).2.updateState = w.updateState := by
  cases o with
  | writeUpdateState doc => exact ho.elim
  | writeLastCheck now =>
    simp only [worldStep]
    split_ifs <;> rfl
  | _ => rfl

variable {t : Journal} {w : World}

theorem untold_step (ho : o.Silent) (ht : Untold w t) (c : Choice) :
    Untold w (journal.step t o c).2 := by
  refine ⟨(updateState_step ho t.state c).trans ht.updateState, fun doc r hmem => ?_⟩
  rcases List.mem_append.mp hmem with hold | hnew
  · exact ht.noWrite doc r hold
  · obtain rfl : Op.writeUpdateState doc = o := congrArg Sigma.fst (List.mem_singleton.mp hnew)
    exact ho.elim

theorem textOf_silent (ho : o.Silent) (r : Res o) : textOf ⟨o, r⟩ = none := by
  unfold textOf
  split
  · rename_i heq
    cases heq
    exact ho.elim
  · rfl

theorem findSome_silent (ho : o.Silent) (log : List Entry) (r : Res o) :
    (log ++ [(⟨o, r⟩ : Entry)]).findSome? textOf = log.findSome? textOf := by
  rw [List.findSome?_append, List.findSome?_singleton, textOf_silent ho r, Option.or_none]

theorem silent_of_checks (ho : o.Checks) : o.Silent := by
  cases o with
  | writeUpdateState doc => exact ho
  | applicationVersion => exact ho
  | _ => trivial

theorem disk_of_checks (ho : o.Checks) (w : World) (c : Choice) : (worldStep w o c).2.disk = w.disk := by
  cases o with
  | effect e =>
    cases e with
    | verifyFile => rfl
    | _ => exact ho.elim
  | writeLastCheck now =>
    simp only [worldStep]
    split_ifs <;> rfl
  | listIn | clock | uniform | readLastCheck | makeTemp | fetchManifest => rfl
  | _ => exact ho.elim

/-- From `_resolve_versions` on: the version to be displayed is known. -/
structure Shows (w : World) (override shown : String) (t : Journal) : Prop where
  untold : Untold w t
  shown : shownVersion override t = shown

theorem shows_step (ho : o.Checks) {override shown : String}
    (ht : Shows w override shown t) (c : Choice) : Shows w override shown (journal.step t o c).2 := by
  refine ⟨untold_step (silent_of_checks ho) ht.untold c, ?_⟩
  rw [← ht.shown]
  simp only [shownVersion, journal, Machine.traced, releaseTree, disk_of_checks ho, findSome_silent (silent_of_checks ho)]

theorem safe_resolveVersions (ht : Untold w t) (hlog : t.log.findSome? textOf = none)
    (override : String) :
    (resolveVersions override).Safe journal (fun _ => True) (fun _ => True)
      (fun r u => Shows w override r.1 u) t := by
  unfold resolveVersions
  split_ifs with hover
  · exact ⟨ht, if_pos hover⟩
  have hlook := untold_step (o := .look) trivial ht {}
  have hnone := (findSome_silent (o := .look) trivial t.log t.state.disk).trans hlog
  apply safe_look
  refine ⟨trivial, ?_⟩
  split_ifs with hactive
  · refine ⟨hlook, ?_⟩
    rw [shownVersion, if_neg hover]
    exact if_pos hactive
  apply safe_sys (o := .applicationVersion)
  intro c _
  refine ⟨trivial, ⟨hlook.updateState, fun doc r hmem => ?_⟩, ?_⟩
  · rcases List.mem_append.mp hmem with hold | hnew
    · exact hlook.noWrite doc r hold
    · exact nomatch congrArg Sigma.fst (List.mem_singleton.mp hnew)
  · rw [shownVersion, if_neg hover]
    refine (if_neg hactive).trans ?_
    rw [List.findSome?_append, goOn_log, hnone, Option.none_or]
    rfl

theorem wrote_ne_error (doc doc' : UpdateState) (e : String) :
    (⟨.writeUpdateState doc, .ok ()⟩ : Entry) ≠ ⟨.writeUpdateState doc', .error e⟩ := by
  intro h
  cases h

theorem safe_writeSkip {override shown : String} (ht : Shows w override shown t) :
    (writeState shown none notDueReason).Safe journal (fun _ => True) (fun _ => True)
      (fun _ u => u.state.updateState = w.updateState ↔
        w.updateState = some (skipDocument (shownVersion override u)) ∨ ∀ doc, ¬ Wrote doc u.log) t := by
  unfold writeState writeUpdateState
  rw [← skipDocument]
  split_ifs
  · exact iff_of_true ht.untold.updateState (Or.inr fun doc => ht.untold.noWrite doc _)
  apply safe_sys (o := .writeUpdateState (skipDocument shown)) (f := fun _ => pure ())
  intro c _
  refine ⟨trivial, ?_⟩
  simp only [worldStep]
  split_ifs
  · refine iff_of_true ht.untold.updateState (Or.inr fun doc hmem => ?_)
    rcases List.mem_append.mp hmem with hold | hnew
    · exact ht.untold.noWrite doc _ hold
    · exact wrote_ne_error _ _ _ (List.mem_singleton.mp hnew)
  · have hshown : shownVersion override ⟨{ t.state with updateState := some (skipDocument shown) },
        t.log ++ [⟨.writeUpdateState (skipDocument shown), .ok ()⟩]⟩ = shown := by
      rw [← ht.shown]
      simp only [shownVersion, List.findSome?_append, List.findSome?_singleton, textOf, Option.or_none]
    refine ⟨fun h => Or.inl ?_, ?_⟩
    · exact h.symm.trans (congrArg (fun x => some (skipDocument x)) hshown.symm)
    · rintro (h | h)
      · exact (h.trans (congrArg (fun x => some (skipDocument x)) hshown)).symm
      · exact absurd (List.mem_append_right _ List.mem_cons_self) (h (skipDocument shown))

theorem recoverInterrupted_silent (pid : ℕ) : (recoverInterrupted pid).Within Op.Silent :=
  recoverInterrupted_within trivial trivial (fun _ _ => ⟨trivial, fun _ => trivial, trivial⟩)
    (fun _ _ => ⟨trivial, fun _ => trivial, trivial⟩) ⟨trivial, fun _ => trivial, trivial, trivial⟩ trivial

def SkipKept (w : World) (override : String) (t : Journal) : Prop :=
  t.state.updateState = w.updateState ↔
    w.updateState = some (skipDocument (shownVersion override t)) ∨ ∀ doc, ¬ Wrote doc t.log

theorem safe_skippedCheck (h : Host) (a : CheckCommand) (w : World) :
    (cliCheck h a).Safe journal (fun _ => True) (fun _ => True)
      (fun r t => ∀ result code, r = .ok (some result, code) → result.checked = false →
        SkipKept w a.currentVersion t) ⟨w, []⟩ := by
  have hrecover := Prog.Within.safe (m := journal) (A := fun _ => True)
    (J := fun t : Journal => Untold w t ∧ t.log.findSome? textOf = none) (s := ⟨w, []⟩) (recoverInterrupted_silent a.pid)
    ⟨⟨rfl, fun _ _ => List.not_mem_nil⟩, rfl⟩
    (fun t o c ho _ ht => ⟨untold_step ho ht.1 c, (findSome_silent ho t.log _).trans ht.2⟩)
  have hother {α : Type} {p : Run α} {u : Journal} (hp : p.Within Op.Reports) :
      p.Safe journal (fun _ => True) (fun _ => True) (fun _ _ => True) u :=
    Prog.Within.safe (J := fun _ => True) hp trivial fun _ _ _ _ _ _ => trivial
  have hpart {α : Type} {p : Run α} {display : String} {u : Journal} (hu : Shows w a.currentVersion display u)
      (hp : p.Within Op.Checks) :
      p.Safe journal (fun _ => True) (fun _ => True) (fun _ => Shows w a.currentVersion display) u :=
    (Prog.Within.safe hp hu fun _ _ c ho _ ht => shows_step ho ht c).mono (fun _ _ => trivial) fun _ _ h => h
  apply Prog.Safe.bind (hrecover.mono (fun _ _ => trivial) fun _ _ h => h)
  rintro _ u ⟨hu, hnone⟩
  apply Prog.Safe.bind (safe_resolveVersions hu hnone _)
  rintro ⟨display, compare⟩ u hu
  dsimp only at hu ⊢
  split_ifs
  · apply Prog.Safe.bind (hother (writeState_within _ _ _))
    exact fun _ _ _ _ _ he => nomatch he
  refine .bind (hpart hu (p := makeTemp) ⟨trivial, fun _ => trivial⟩) ?_
  rintro (e | _) u hu
  · exact fun _ _ he => nomatch he
  refine .bind (hpart hu (p := fetchManifest) ⟨trivial, fun _ => trivial⟩) ?_
  rintro (e | payload) u hu
  · apply Prog.Safe.bind (hother (writeState_within _ _ _))
    exact fun _ _ _ _ _ he => nomatch he
  refine .bind (hpart hu (p := readBadVersions) ⟨trivial, fun _ => trivial⟩) ?_
  intro bad u hu
  have hcheck (args : CheckArgs) :
      (checkForUpdate h args).Safe journal (fun _ => True) (fun _ => True)
        (fun r t => Shows w a.currentVersion display t ∧ r.From args) u :=
    (Prog.Safe.conj (hpart hu (checkForUpdate_within h args))
      ((log_checkForUpdate h args u.log).traced (m := releaseTree))).mono (fun _ _ => trivial) fun _ _ h => h
  apply Prog.Safe.bind (hcheck _)
  rintro result u ⟨hu, hresult⟩
  cases hresult with
  | skipped next =>
    refine .bind (Q := fun _ => SkipKept w a.currentVersion) ?_ fun _ _ ht _ _ _ _ => ht
    exact .bind (safe_writeSkip hu) fun _ _ ht => ht
  | made hchecked _ =>
    apply Prog.Safe.bind (hother (writeCheckState_within display result))
    intro code x _ result' code' he hskip
    obtain rfl : result = result' := by
      cases he
      rfl
    exact nomatch hchecked.symm.trans hskip

def checkHost : Host where
  loads _ := some (.obj [("schema_version", .int 1), ("version", .str "1.1.0"), ("channel", .str "stable"),
    ("source_commit", .str "abc"), ("min_image_version", .str "0.1.0"), ("bundle_url", .str "bundle url"),
    ("bundle_sha256", .str sampleManifest.bundleSha256), ("bundle_size", .int 1000), ("release_summary", .str "fixes"),
    ("release_url", .str "release url"), ("reboot_required", .bool false)])
  urlsplit _ := some ("https", "host")

def sampleCheck : CheckCommand := { pid := 7, manifestUrl := "manifest url" }

def checkAt (time : ℚ) (w : World) : Option (Except String (Option CheckResult × ℕ)) × Journal :=
  (cliCheck checkHost sampleCheck).exec journal
    (List.replicate 60 { granted with time, raw := .scalar (.other true) }) ⟨w, []⟩

def skippedWorld : World :=
  { sampleWorld with lastCheck := .at 0, updateState := some (skipDocument "1.0.0") }

end PiBuddyCam.Updater
