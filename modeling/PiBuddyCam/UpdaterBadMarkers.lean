import PiBuddyCam.TraceOrder
import PiBuddyCam.UpdaterReliable

/-! The markers of bad releases: no run removes one, and while it is there neither a
check nor an install that is not forced goes for that version. -/
namespace PiBuddyCam.Updater

attribute [local irreducible] writeState

def Marked (v : String) (d : Disk) : Prop := ∃ files, d.node badDir = some (.dir files) ∧ markerName v ∈ files

def Recorded (v : String) (log : List Entry) : Prop := ∃ src, (⟨.replaceIn badDir src (markerName v), .ok ()⟩ : Entry) ∈ log

def SwitchedTo (v : String) (log : List Entry) : Prop := ∃ before after, log = before ++ after ∧ phase before = .active v

/-- The calls that leave the markers alone. Only the target, if there is one, is
renamed to or marked. -/
def Op.Spares (target : Option String) : Op → Prop
  | .mkdtemp stem => ∃ version, stem = stagingStem version
  | .rename src dst => src ≠ badDir ∧ target = some dst
  | .replace src dst => src ≠ badDir ∧ dst ≠ badDir
  | .symlink _ name | .remove name | .rmdir name | .removeIn name _ => name ≠ badDir
  | .replaceIn name src dst =>
    name = badDir ∧ (∀ v, src ≠ markerName v) ∧ ∃ version, target = some version ∧ dst = markerName version
  | .effect e => e.staging ≠ some badDir
  | _ => True

theorem ne_badDir_of_isSemver {x : String} (h : isSemver x = true) : x ≠ badDir := by
  rintro rfl
  exact absurd h (by decide)

theorem ne_badDir_of_stem {version x : String} (h : (stagingStem version).toList <+: x.toList) : x ≠ badDir := by
  rintro rfl
  have hlen := h.length_le
  have hstem : 9 ≤ (stagingStem version).toList.length := by
    simp only [stagingStem, String.toList_append, List.length_append]
    exact Nat.le_add_left 9 _
  have hbad : badDir.toList.length = 4 := rfl
  omega

theorem markerName_inj {v v' : String} (h : markerName v = markerName v') : v = v' := by
  have hl := congrArg String.toList h
  simp only [markerName, String.toList_append] at hl
  exact String.toList_inj.mp (List.append_cancel_right hl)

theorem tmpLink_ne_markerName (pid : ℕ) (x v : String) : tmpLink pid x ≠ markerName v := by
  intro h
  have hl := congrArg (fun s => s.toList.getLast?) h
  have hdigits : (toString pid).toList = Nat.toDigits 10 pid := by
    rw [Nat.toString_eq_ofList_toDigits, String.toList_ofList]
  obtain ⟨c, hc⟩ : ∃ c, (Nat.toDigits 10 pid).getLast? = some c :=
    ⟨_, List.getLast?_eq_some_getLast Nat.toDigits_ne_nil⟩
  have hdigit : c.isDigit = true := Nat.isDigit_of_mem_toDigits (by decide) (by decide) (List.mem_of_getLast? hc)
  have hjson : ".json".toList.getLast? = some 'n' := by decide
  simp only [tmpLink, markerName, String.toList_append, List.getLast?_append, hdigits, hc, hjson, Option.some_or] at hl
  rw [Option.some.inj hl] at hdigit
  exact absurd hdigit (by decide)

variable {target : Option String} {v : String}

theorem marked_step (htarget : ∀ x, target = some x → isSemver x = true) {w : World}
    {o : Op} (ho : o.Spares target) (c : Choice) (hw : Marked v w.disk) : Marked v (worldStep w o c).2.disk := by
  obtain ⟨files, hdir, hmem⟩ := hw
  have hframe (htouch : ¬ o.MayTouch badDir) : Marked v (worldStep w o c).2.disk :=
    ⟨files, ((frame_step w o c).node badDir htouch).trans hdir, hmem⟩
  have hisdir : w.disk.isdir (.entry badDir) = true := by
    have hreal : w.disk.realpath (.entry badDir) = .entry badDir := by
      simp only [Disk.realpath, Disk.follow, hdir]
    simp only [Disk.isdir, hreal, hdir]
  -- a change of the files of some directory that keeps the marker
  have hchange (fails : Bool) (name : String) (allowed : List String → Bool) (change : List String → List String)
      (hkeep : name = badDir → markerName v ∈ change files) :
      Marked v (w.disk.changeFiles fails c name allowed change).2 := by
    by_cases hname : name = badDir
    · subst hname
      simp only [Disk.changeFiles, hdir]
      rcases attempt_cases w.disk (w.disk.put badDir (.dir (change files))) fails c (allowed files) with ⟨_, h⟩ | h <;>
        rw [h]
      · exact ⟨change files, Disk.node_put_self _ _ _, hkeep rfl⟩
      · exact ⟨files, hdir, hmem⟩
    · exact ⟨files, ((frame_changeFiles w.disk fails c name allowed change).node badDir (Ne.symm hname)).trans hdir, hmem⟩
  cases o with
  | mkdtemp stem =>
    obtain ⟨version, rfl⟩ := ho
    exact hframe fun h => ne_badDir_of_stem h rfl
  | rename src dst =>
    refine hframe ?_
    rintro (h | h)
    · exact ho.1 h.symm
    · exact ne_badDir_of_isSemver (htarget dst ho.2) h.symm
  | replace src dst =>
    refine hframe ?_
    rintro (h | h)
    · exact ho.1 h.symm
    · exact ho.2 h.symm
  | symlink _ name => exact hframe fun h => ho h.symm
  | remove name => exact hframe fun h => ho h.symm
  | rmdir name => exact hframe fun h => ho h.symm
  | removeIn name file => exact hframe fun h => ho h.symm
  | effect e => exact hframe ho
  | makedirsIn name =>
    by_cases hname : name = badDir
    · subst hname
      simp only [worldStep, World.onDisk, Disk.makedirsIn, hisdir, if_true]
      exact ⟨files, hdir, hmem⟩
    · exact hframe fun h => hname h.symm
  | openIn name file =>
    refine hchange _ _ _ _ fun _ => ?_
    split_ifs
    · exact hmem
    · exact List.mem_append_left _ hmem
  | writeIn name file => exact hchange _ _ _ _ fun _ => hmem
  | replaceIn name src dst =>
    refine hchange _ _ _ _ fun _ => ?_
    by_cases hdst : markerName v = dst
    · exact List.mem_append_right _ (List.mem_singleton.mpr hdst)
    · refine List.mem_append_left _ (List.mem_filter.mpr ⟨hmem, ?_⟩)
      simpa using ⟨(ho.2.1 v).symm, hdst⟩
  | _ => exact hframe fun h => h

theorem marked_of_replaceIn {w : World} {src v : String} {c : Choice}
    (h : (worldStep w (.replaceIn badDir src (markerName v)) c).1 = .ok ()) :
    Marked v (worldStep w (.replaceIn badDir src (markerName v)) c).2.disk := by
  simp only [worldStep, World.onDisk, Disk.changeFiles] at h ⊢
  split at h
  · rename_i files hfiles
    rcases attempt_cases w.disk (w.disk.put badDir (.dir (files.filter (fun f => f ≠ src && f ≠ markerName v) ++
      [markerName v]))) c.fails c (files.contains src) with ⟨_, hdone⟩ | hfail
    · rw [hdone]
      exact ⟨_, Disk.node_put_self _ _ _, List.mem_append_right _ List.mem_cons_self⟩
    · rw [hfail] at h
      cases h
  · cases h

def MarksKept (t : Journal) : Prop := ∀ v, Recorded v t.log → isSemver v = true ∧ Marked v t.state.disk

theorem marksKept_step (htarget : ∀ x, target = some x → isSemver x = true) {t : Journal}
    {o : Op} (ho : o.Spares target) (c : Choice) (ht : MarksKept t) : MarksKept (journal.step t o c).2 := by
  rintro v ⟨src, hmem⟩
  rcases List.mem_append.mp hmem with hold | hnew
  · obtain ⟨hv, hmarked⟩ := ht v ⟨src, hold⟩
    exact ⟨hv, marked_step htarget ho c hmarked⟩
  · have he := List.mem_singleton.mp hnew
    obtain rfl : Op.replaceIn badDir src (markerName v) = o := congrArg Sigma.fst he
    obtain ⟨_, _, version, hversion, hmarker⟩ := ho
    rw [markerName_inj hmarker]
    exact ⟨htarget version hversion, marked_of_replaceIn (markerName_inj hmarker ▸ (eq_of_heq (Sigma.mk.inj he).2).symm)⟩

def NotRenamed (v : String) (log : List Entry) : Prop := ∀ src r, (⟨.rename src v, r⟩ : Entry) ∉ log

def Phase.version? : Phase → Option String
  | .idle => none
  | .renamed version | .active version => some version

theorem phaseStep_version {p : Phase} {e : Entry} (h : (phaseStep p e).version? = some v) :
    p.version? = some v ∨ ∃ src r, e = ⟨.rename src v, r⟩ := by
  unfold phaseStep at h
  split at h
  · split_ifs at h
    · obtain rfl := Option.some.inj h
      exact Or.inr ⟨_, _, rfl⟩
    · exact Or.inl h
  · split_ifs at h <;> exact Or.inl h
  · split_ifs at h
    · exact nomatch h
    · exact Or.inl h
  · split_ifs at h
    · exact nomatch h
    · exact Or.inl h
  · split_ifs at h
    · exact nomatch h
    · exact Or.inl h
  · exact Or.inl h

theorem phase_of_notRenamed {log : List Entry} (h : NotRenamed v log) : (phase log).version? ≠ some v := by
  induction log using List.reverseRecOn with
  | nil => exact nofun
  | append_singleton log e ih =>
    intro hphase
    rw [phase_append] at hphase
    rcases phaseStep_version hphase with hold | ⟨src, r, rfl⟩
    · exact ih (fun src r hmem => h src r (List.mem_append_left _ hmem)) hold
    · exact h src r (List.mem_append_right _ List.mem_cons_self)

theorem not_switchedTo {log : List Entry} (h : NotRenamed v log) : ¬ SwitchedTo v log := by
  rintro ⟨before, after, rfl, hphase⟩
  have hbefore : NotRenamed v before := fun src r hmem => h src r (List.mem_append_left _ hmem)
  apply phase_of_notRenamed hbefore
  rw [hphase]
  rfl

/-! Which of these calls the commands make. -/

theorem removing_spares {x : String} (h : x ≠ badDir) : Removing (Op.Spares target) x :=
  ⟨trivial, fun _ => h, h⟩

theorem swapping_spares (pid : ℕ) {link : String}
    (hlink : link = currentLink ∨ link = previousLink) : Swapping (Op.Spares target) pid link := by
  have hhead : ∃ c, link.toList.head? = some c ∧ c ≠ '.' := by
    rcases hlink with rfl | rfl
    · exact ⟨'c', by decide, by decide⟩
    · exact ⟨'p', by decide, by decide⟩
  obtain ⟨c, hc, hdot⟩ := hhead
  have hne {x : String} (hx : x.toList.head? = some c) : x ≠ badDir := by
    rintro rfl
    exact hdot (Option.some.inj (hx.symm.trans (by decide)))
  have htmp := hne (head?_tmpLink pid hc)
  exact ⟨trivial, fun _ => htmp, ⟨htmp, hne hc⟩, htmp⟩

theorem recoverInterrupted_spares (pid : ℕ) : (recoverInterrupted pid).Within (Op.Spares none) := by
  refine recoverInterrupted_within trivial trivial (fun x hx => removing_spares ?_)
    (fun x hx => removing_spares (ne_badDir_of_isSemver hx)) (swapping_spares pid (Or.inl rfl))
    (show currentLink ≠ badDir by decide)
  rintro rfl
  exact absurd hx (by decide)

theorem defaultPrune_spares (kept : List String) :
    (defaultPrune kept).Within (Op.Spares target) :=
  defaultPrune_within trivial trivial (fun _ hx => removing_spares (ne_badDir_of_isSemver hx)) kept

theorem spares_of_reports {o : Op} (ho : o.Reports) : o.Spares none := by
  cases o with
  | effect e =>
    cases e with
    | verifyFile => exact nofun
    | _ => exact ho.elim
  | mkdtemp | rename | replace | symlink | remove | rmdir | removeIn | replaceIn => exact ho.elim
  | _ => trivial

theorem spares_of_prepares {staging : String} (hst : staging ≠ badDir) {o : Op}
    (ho : o.Prepares staging) : o.Spares target := by
  cases o with
  | effect e =>
    intro h
    cases e <;> cases h <;> exact hst (ho : badDir = staging).symm
  | removeIn x file => exact (ho : x = staging) ▸ hst
  | mkdtemp | rename | replace | symlink | remove | rmdir | replaceIn => exact ho.elim
  | _ => trivial

theorem rollBack_spares (stop : Bool) (a : InstallArgs) (version : String) (reason : Val) :
    (rollBack (ownEffects a.pid stop) a version reason).Within (Op.Spares (some version)) := by
  refine .bind (rollback_within trivial trivial (swapping_spares a.pid (Or.inl rfl))
    (show currentLink ≠ badDir by decide)) fun _ => ?_
  refine .opBind trivial fun d => ?_
  refine .bind (effect_within nofun) fun _ => ?_
  refine .bind (Prog.Within.bind ?_ fun _ => trivial) fun _ => trivial
  refine .opBind trivial ?_
  rintro (e | _)
  · trivial
  refine .opBind trivial ?_
  rintro (e | _)
  · trivial
  refine .opBind trivial ?_
  rintro (e | _)
  · trivial
  exact ⟨⟨rfl, tmpLink_ne_markerName a.pid _, version, rfl, rfl⟩, fun _ => trivial⟩

theorem installFrom_spares (stop : Bool) (a : InstallArgs) (version : String) {staging : String}
    (hst : staging ≠ badDir) :
    (installFrom (ownEffects a.pid stop) a version staging).Within (Op.Spares (some version)) := by
  refine .bind ((fetchBundle_within _ _).mono fun _ => spares_of_prepares hst) ?_
  rintro (stop' | _)
  · exact stopped_within trivial a version _ stop'
  refine .bind ((buildRelease_within _ _ _).mono fun _ => spares_of_prepares hst) ?_
  rintro (stop' | _)
  · exact stopped_within trivial a version _ stop'
  refine .opBind trivial fun (d : Disk) => ?_
  refine .bind (Prog.Within.bind ?_ fun _ => trivial) fun raw => ?_
  · exact switchRelease_within trivial trivial (fun _ => ⟨hst, rfl⟩) (swapping_spares a.pid (Or.inr rfl))
      (swapping_spares a.pid (Or.inl rfl)) (fun hv => removing_spares (ne_badDir_of_isSemver hv))
  dsimp only
  split_ifs
  · exact stopped_within trivial a version _ _
  refine .bind ?_ fun _ => trivial
  refine .bind (effect_within nofun) fun restarted => ?_
  dsimp only
  split_ifs
  · exact rollBack_spares stop a version _
  refine .bind (waitForHealth_within (fun _ => nofun) trivial (fun _ => trivial) version) fun healthy => ?_
  split_ifs
  · exact rollBack_spares stop a version _
  · exact .bind (Prog.Within.bind (defaultPrune_spares _) fun _ => trivial) fun _ => trivial

end PiBuddyCam.Updater
