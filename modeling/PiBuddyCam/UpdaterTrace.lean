import PiBuddyCam.TraceOrder
import PiBuddyCam.UpdaterCalls

/-! The order of the injected calls of `install_update`: what comes before a switch, and
that the services are restarted after every stop and every change of `current`. -/
namespace PiBuddyCam.Updater

open Trace

def Succeeds (e : Effect) (x : Entry) : Prop := ∃ r, x = ⟨.effect e, r⟩ ∧ (effectResult r).1 = true

def Downloads (m : Manifest) (staging bundle : String) (x : Entry) : Prop :=
  ∃ r, x = ⟨.effect (.download m staging), r⟩ ∧ (effectResult r).1 = true ∧ bundlePath (effectResult r).2 = bundle

def HasSize (m : Manifest) (staging bundle : String) (x : Entry) : Prop :=
  ∃ size : ℕ, x = ⟨.getsize staging bundle, .ok size⟩ ∧ (size : ℤ) = m.bundleSize

def fetchGates (m : Manifest) (staging bundle : String) : List (Entry → Prop) :=
  [Downloads m staging bundle, Succeeds (.verifyManifestSignature m staging),
    Succeeds (.verifyBundleSignature staging bundle), HasSize m staging bundle,
    Succeeds (.extract staging bundle m.bundleSha256)]

def switchGates (m : Manifest) (staging bundle : String) : List (Entry → Prop) :=
  fetchGates m staging bundle ++ [Succeeds (.buildVenv staging m), Succeeds (.preflight staging m)]

def Gated (m : Manifest) (e : Entry) (before : List Entry) : Prop :=
  ∀ staging version r, e = ⟨.effect (.switch staging version), r⟩ →
    ∃ bundle, InOrder (switchGates m staging bundle) before

def NeedsRestart (e : Entry) : Prop :=
  (∃ r, e = ⟨.effect .stopServices, r⟩) ∨
    (∃ staging version r, e = ⟨.effect (.switch staging version), r⟩ ∧ (effectResult r).1 = true) ∨
    (∃ src, e = ⟨.replace src currentLink, .ok ()⟩) ∨ e = ⟨.remove currentLink, .ok ()⟩

def IsRestart (e : Entry) : Prop := ∃ version r, e = ⟨.effect (.restartServices version), r⟩

def Op.NoSwitch : Op → Prop
  | .effect (.switch _ _) => False
  | _ => True

def Op.Plain : Op → Prop
  | .effect (.switch _ _) | .effect .stopServices | .replace _ _ | .remove _ => False
  | _ => True

theorem Op.Plain.noSwitch {o : Op} (h : o.Plain) : o.NoSwitch := by
  unfold Op.NoSwitch
  split
  · exact h
  · trivial

theorem Op.Plain.noNeed {o : Op} (h : o.Plain) (r : Res o) : ¬ NeedsRestart ⟨o, r⟩ := by
  rintro (⟨_, he⟩ | ⟨_, _, _, he, _⟩ | ⟨_, he⟩ | he) <;> cases he <;> exact h

theorem gated_snoc {m : Manifest} {l : List Entry} (h : OnlyAfter (Gated m) l) {o : Op} (ho : o.NoSwitch) (r : Res o) :
    OnlyAfter (Gated m) (l ++ [⟨o, r⟩]) := by
  refine h.snoc fun staging version _ he => ?_
  cases he
  exact ho.elim

variable {α β : Type} {m : Manifest} {l : List Entry}

def Grown (l l' : List Entry) : Prop := ∃ more, l' = l ++ more ∧ ∀ e ∈ more, ¬ NeedsRestart e

theorem Grown.refl (l : List Entry) : Grown l l := ⟨[], (List.append_nil l).symm, List.forall_mem_nil _⟩

theorem Grown.trans {l l' l'' : List Entry} (h : Grown l l') (h' : Grown l' l'') : Grown l l'' := by
  obtain ⟨more, rfl, hmore⟩ := h
  obtain ⟨more', rfl, hmore'⟩ := h'
  exact ⟨more ++ more', List.append_assoc l more more', List.forall_mem_append.mpr ⟨hmore, hmore'⟩⟩

theorem Grown.snoc (l : List Entry) {o : Op} (ho : o.Plain) (r : Res o) : Grown l (l ++ [⟨o, r⟩]) :=
  ⟨_, rfl, List.forall_mem_singleton.mpr (ho.noNeed r)⟩

variable {l l' : List Entry}

theorem Grown.answered (h : Grown l l') (hl : Answered NeedsRestart IsRestart l) :
    Answered NeedsRestart IsRestart l' := by
  obtain ⟨more, rfl, hmore⟩ := h
  exact hl.append hmore

variable {Ps : List (Entry → Prop)}

theorem Grown.inOrder (h : Grown l l') (hl : InOrder Ps l) :
    InOrder Ps l' := by
  obtain ⟨more, rfl, _⟩ := h
  exact hl.append more

theorem grown_of_within {p : Run α} (hl : OnlyAfter (Gated m) l) (hp : p.Within Op.Plain) :
    p.LogSafe (OnlyAfter (Gated m)) (fun _ l' => Grown l l' ∧ OnlyAfter (Gated m) l') l := by
  have h := Prog.Within.safe (m := traceMachine Op Res) (A := fun _ => True)
    (J := fun l' => Grown l l' ∧ OnlyAfter (Gated m) l') hp ⟨Grown.refl l, hl⟩ ?_
  · exact h.mono (fun _ h => h.2) fun _ _ h => h
  · rintro l' o c ho - ⟨hgrown, hgated⟩
    exact ⟨hgrown.trans (Grown.snoc l' ho (c o)), gated_snoc hgated ho.noSwitch (c o)⟩

section Rules

variable {f : α → Run β} {Q : β → List Entry → Prop}

theorem log_within {p : Run α} (hl : OnlyAfter (Gated m) l) (hp : p.Within Op.Plain)
    (hf : ∀ a l', Grown l l' → OnlyAfter (Gated m) l' → (f a).LogSafe (OnlyAfter (Gated m)) Q l') :
    (p >>= f).LogSafe (OnlyAfter (Gated m)) Q l :=
  Prog.Safe.bind (grown_of_within hl hp) fun a l' h => hf a l' h.1 h.2

theorem log_call {o : Op} {f : Res o → Run β} (hl : OnlyAfter (Gated m) l) (ho : o.NoSwitch)
    (hf : ∀ r, OnlyAfter (Gated m) (l ++ [⟨o, r⟩]) →
      (f r).LogSafe (OnlyAfter (Gated m)) Q (l ++ [⟨o, r⟩])) :
    (sys o >>= f).LogSafe (OnlyAfter (Gated m)) Q l :=
  Prog.logSafe_op_bind fun r => ⟨gated_snoc hl ho r, hf r (gated_snoc hl ho r)⟩

theorem log_demand {e : Effect} {text : String} {f : Except Stop Val → Run β} (hl : OnlyAfter (Gated m) l)
    (he : Op.NoSwitch (.effect e))
    (hok : ∀ r, (effectResult r).1 = true → OnlyAfter (Gated m) (l ++ [⟨.effect e, r⟩]) →
      (f (.ok (effectResult r).2)).LogSafe (OnlyAfter (Gated m)) Q (l ++ [⟨.effect e, r⟩]))
    (herr : ∀ r stop, OnlyAfter (Gated m) (l ++ [⟨.effect e, r⟩]) →
      (f (.error stop)).LogSafe (OnlyAfter (Gated m)) Q (l ++ [⟨.effect e, r⟩])) :
    (demand e text >>= f).LogSafe (OnlyAfter (Gated m)) Q l := by
  apply log_call (o := .effect e) hl he
    (f := fun raw => f (if (effectResult raw).1 then .ok (effectResult raw).2
      else .error (.reason ((effectResult raw).2.orText text))))
  intro r hr
  cases hres : (effectResult r).1 with
  | true => exact hok r hres hr
  | false => exact herr r _ hr

end Rules

/-- How a part of the preparation ends: plain calls were added, and if it succeeded the
log has its gates. -/
def Prepared (m : Manifest) (l : List Entry) (gates : List (Entry → Prop)) (r : Except Stop Unit) (l' : List Entry) :
    Prop :=
  Grown l l' ∧ OnlyAfter (Gated m) l' ∧ (r = .ok () → InOrder gates l')

theorem Prepared.of_error (h : Grown l l') (hl' : OnlyAfter (Gated m) l')
    (gates : List (Entry → Prop)) (stop : Stop) : Prepared m l gates (.error stop) l' :=
  ⟨h, hl', nofun⟩

variable {l0 : List Entry}

theorem log_gate {e : Effect} {text : String} {f : Except Stop Val → Run (Except Stop Unit)}
    {gates Ps : List (Entry → Prop)} (hf : ∀ stop, f (.error stop) = pure (.error stop)) (he : Op.Plain (.effect e))
    (hg : Grown l0 l) (hl : OnlyAfter (Gated m) l) (ho : InOrder Ps l)
    (hk : ∀ v l', Grown l0 l' → OnlyAfter (Gated m) l' → InOrder (Ps ++ [Succeeds e]) l' →
      (f (.ok v)).LogSafe (OnlyAfter (Gated m)) (Prepared m l0 gates) l') :
    (demand e text >>= f).LogSafe (OnlyAfter (Gated m)) (Prepared m l0 gates) l := by
  refine log_demand hl he.noSwitch ?_ ?_
  · intro r hr hl'
    exact hk _ _ (hg.trans (Grown.snoc l he r)) hl' (ho.snoc ⟨r, rfl, hr⟩)
  · intro r stop hl'
    rw [hf]
    exact .of_error (hg.trans (Grown.snoc l he r)) hl' _ _

theorem log_checkSize {staging bundle : String} (hg : Grown l0 l)
    (hl : OnlyAfter (Gated m) l) (ho : InOrder Ps l) :
    (checkSize staging bundle m.bundleSize).LogSafe (OnlyAfter (Gated m))
      (Prepared m l0 (Ps ++ [HasSize m staging bundle])) l := by
  have hsize : Op.Plain (.getsize staging bundle) := trivial
  apply log_call hl hsize.noSwitch
  rintro (e | actual) hl'
  · exact .of_error (hg.trans (Grown.snoc l hsize _)) hl' _ _
  refine ⟨hg.trans (Grown.snoc l hsize _), hl', fun hok => ho.snoc ⟨actual, rfl, ?_⟩⟩
  by_contra hne
  rw [if_neg hne] at hok
  exact nomatch hok

theorem log_verifyAndExtract {staging bundle : String} (hg : Grown l0 l)
    (hl : OnlyAfter (Gated m) l) (ho : InOrder [Downloads m staging bundle] l) :
    (verifyAndExtract m staging bundle).LogSafe (OnlyAfter (Gated m))
      (Prepared m l0 (fetchGates m staging bundle)) l := by
  have hfile : Op.Plain (.isfile staging bundle) := trivial
  have hremove : Op.Plain (.removeIn staging bundle) := trivial
  apply log_call hl hfile.noSwitch
  intro (present : Bool) hl1
  have hg1 := hg.trans (Grown.snoc l hfile present)
  split_ifs
  · exact .of_error hg1 hl1 _ _
  refine log_gate (fun _ => rfl) trivial hg1 hl1 (ho.append _) ?_
  intro _ l2 hg2 hl2 ho2
  refine log_gate (fun _ => rfl) trivial hg2 hl2 ho2 ?_
  intro _ l3 hg3 hl3 ho3
  apply Prog.Safe.bind (log_checkSize hg3 hl3 ho3)
  rintro (stop | _) l4 ⟨hg4, hl4, ho4⟩
  · exact .of_error hg4 hl4 _ _
  refine log_gate (fun _ => rfl) trivial hg4 hl4 (ho4 rfl) ?_
  intro _ l5 hg5 hl5 ho5
  apply log_within hl5 (attempt_within hremove)
  intro _ l6 hg6 hl6
  exact ⟨hg5.trans hg6, hl6, fun _ => hg6.inOrder ho5⟩

theorem log_fetchBundle (staging : String) (hl : OnlyAfter (Gated m) l) :
    (fetchBundle m staging).LogSafe (OnlyAfter (Gated m))
      (fun r l' => ∃ bundle, Prepared m l (fetchGates m staging bundle) r l') l := by
  have hfree : Op.Plain .freeSpace := trivial
  have hspace : (checkFreeSpace m.bundleSize).Within Op.Plain := ⟨hfree, fun r => by cases r <;> trivial⟩
  apply log_within hl hspace
  rintro (stop | _) l1 hg1 hl1
  · exact ⟨"", .of_error hg1 hl1 _ _⟩
  have hdown : Op.Plain (.effect (.download m staging)) := trivial
  refine log_demand hl1 hdown.noSwitch ?_ ?_
  · intro r hr hl2
    have ho2 := (InOrder.nil l1).snoc (P := Downloads m staging (bundlePath (effectResult r).2))
      (x := ⟨.effect (.download m staging), r⟩) ⟨r, rfl, hr, rfl⟩
    exact (log_verifyAndExtract (hg1.trans (Grown.snoc l1 hdown r)) hl2 ho2).post fun _ _ h => ⟨_, h⟩
  · intro r stop hl2
    exact ⟨"", .of_error (hg1.trans (Grown.snoc l1 hdown r)) hl2 _ _⟩

theorem log_buildRelease {fx : Effects} {staging : String} (hl : OnlyAfter (Gated m) l)
    (ho : InOrder Ps l) :
    (buildRelease fx m staging).LogSafe (OnlyAfter (Gated m))
      (fun r l' => OnlyAfter (Gated m) l' ∧ (fx.stopServices = false → Grown l l') ∧
        (r = .ok () → InOrder (Ps ++ [Succeeds (.buildVenv staging m)] ++ [Succeeds (.preflight staging m)]) l')) l := by
  apply Prog.Safe.bind (Q := fun _ l' => OnlyAfter (Gated m) l' ∧ (fx.stopServices = false → l' = l) ∧ InOrder Ps l')
  · cases hfx : fx.stopServices with
    | true =>
      refine Prog.logSafe_op_bind fun r => ?_
      have hl' := gated_snoc hl (o := .effect .stopServices) trivial r
      exact ⟨hl', hl', nofun, ho.append _⟩
    | false => exact ⟨hl, fun _ => rfl, ho⟩
  rintro (stop | _) l1 ⟨hl1, hsame, ho1⟩
  · exact ⟨hl1, fun h => hsame h ▸ Grown.refl l1, nofun⟩
  refine .post
    (Q := Prepared m l1 (Ps ++ [Succeeds (.buildVenv staging m)] ++ [Succeeds (.preflight staging m)])) ?_
    fun r l' h => ⟨h.2.1, fun hs => hsame hs ▸ h.1, h.2.2⟩
  refine log_gate (fun _ => rfl) trivial (Grown.refl l1) hl1 ho1 ?_
  intro _ l2 hg2 hl2 ho2
  refine log_gate (fun _ => rfl) trivial hg2 hl2 ho2 ?_
  intro _ l3 hg3 hl3 ho3
  exact ⟨hg3, hl3, fun _ => ho3⟩

def Served (m : Manifest) (l : List Entry) : Prop := OnlyAfter (Gated m) l ∧ Answered NeedsRestart IsRestart l

theorem served_of_within {p : Run α} (h : Served m l) (hp : p.Within Op.Plain) :
    p.LogSafe (OnlyAfter (Gated m)) (fun _ => Served m) l :=
  (grown_of_within h.1 hp).post fun _ _ h' => ⟨h'.2, h'.1.answered h.2⟩

theorem log_restart {version : String} {f : Bool × Val → Run β} {Q : β → List Entry → Prop}
    (hl : OnlyAfter (Gated m) l)
    (hf : ∀ r l', Served m l' → (f r).LogSafe (OnlyAfter (Gated m)) Q l') :
    (effect (.restartServices version) >>= f).LogSafe (OnlyAfter (Gated m)) Q l := by
  apply log_call (o := .effect (.restartServices version)) (f := fun raw => f (effectResult raw)) hl
    trivial
  intro r hl'
  exact hf _ _ ⟨hl', Answered.snoc l ⟨version, r, rfl⟩ (Op.Plain.noNeed (o := .effect (.restartServices version)) trivial r)⟩

theorem gated_of_within {p : Run α} (hl : OnlyAfter (Gated m) l) (hp : p.Within Op.NoSwitch) :
    p.LogSafe (OnlyAfter (Gated m)) (fun _ => OnlyAfter (Gated m)) l :=
  Prog.Within.safe hp hl fun _ _ c ho _ hl' => gated_snoc hl' ho (c _)

variable {a : InstallArgs} {stop : Bool}

theorem log_rollBack (version : String) (reason : Val) (hl : OnlyAfter (Gated m) l) :
    (rollBack (injectedEffects stop) a version reason).LogSafe (OnlyAfter (Gated m)) (fun _ => Served m) l := by
  have hrollback : (rollback a.pid).Within Op.NoSwitch :=
    rollback_within trivial trivial ⟨trivial, fun _ => trivial, trivial, trivial⟩ trivial
  apply Prog.Safe.bind (gated_of_within hl hrollback)
  intro _ l1 hl1
  apply log_call (o := .look) hl1 trivial
  intro d hl2
  apply log_restart hl2
  intro _ l3 hl3
  exact served_of_within hl3 (.opBind trivial fun _ => trivial)

theorem log_activate (version previousVersion : String) (hl : OnlyAfter (Gated m) l) :
    (activate (injectedEffects stop) a version previousVersion).LogSafe (OnlyAfter (Gated m)) (fun _ => Served m) l := by
  have hwait : (waitForHealth version).Within Op.Plain :=
    waitForHealth_within (fun _ => trivial) trivial (fun _ => trivial) version
  apply log_restart hl
  rintro ⟨ok, reason⟩ l1 hl1
  dsimp only
  split_ifs
  · exact log_rollBack version _ hl1.1
  apply Prog.Safe.bind (served_of_within hl1 hwait)
  intro healthy l2 hl2
  split_ifs
  · exact log_rollBack version _ hl2.1
  · exact served_of_within hl2 (.opBind trivial fun _ => trivial)

def TryEnds (m : Manifest) (out : Attempt) (l : List Entry) : Prop :=
  OnlyAfter (Gated m) l ∧ ((out.quiesced && !out.activated) = true ∨ Answered NeedsRestart IsRestart l)

theorem log_stopped {version : String} {quiesced : Bool} (stop : Stop) (hl : OnlyAfter (Gated m) l)
    (hserved : quiesced = false → Answered NeedsRestart IsRestart l) :
    (stopped a version quiesced stop).LogSafe (OnlyAfter (Gated m)) (TryEnds m) l := by
  cases stop with
  | raised error =>
    cases quiesced with
    | true => exact ⟨hl, Or.inl rfl⟩
    | false => exact ⟨hl, Or.inr (hserved rfl)⟩
  | reason value =>
    apply log_within hl (failed_within trivial a version value)
    intro _ l' hg hl'
    cases quiesced with
    | true => exact ⟨hl', Or.inl rfl⟩
    | false => exact ⟨hl', Or.inr (hg.answered (hserved rfl))⟩

theorem log_installFrom (version staging : String)
    (hl : Served a.manifest l) :
    (installFrom (injectedEffects stop) a version staging).LogSafe (OnlyAfter (Gated a.manifest))
      (TryEnds a.manifest) l := by
  apply Prog.Safe.bind (log_fetchBundle staging hl.1)
  rintro (stop' | _) l1 ⟨bundle, hg1, hl1, ho1⟩
  · exact log_stopped stop' hl1 fun _ => hg1.answered hl.2
  apply Prog.Safe.bind (log_buildRelease hl1 (ho1 rfl))
  rintro (stop' | _) l2 ⟨hl2, hg2, ho2⟩
  · exact log_stopped stop' hl2 fun hs => (hg2 hs).answered (hg1.answered hl.2)
  apply log_call (o := .look) hl2 trivial
  intro (d : Disk) hl3
  have ho3 : InOrder (switchGates a.manifest staging bundle) (l2 ++ [⟨.look, d⟩]) := (ho2 rfl).append _
  refine Prog.logSafe_op_bind (o := Op.effect (.switch staging version)) fun (r : Raw) => ?_
  -- the only switch of the run, with its gates before it
  have hl4 : OnlyAfter (Gated a.manifest) (l2 ++ [⟨.look, d⟩] ++ [⟨.effect (.switch staging version), r⟩]) := by
    refine hl3.snoc fun staging' version' r' he => ⟨bundle, ?_⟩
    obtain ⟨rfl, _⟩ := Effect.switch.inj (Op.effect.inj (congrArg Sigma.fst he))
    exact ho3
  refine ⟨hl4, ?_⟩
  dsimp only
  split_ifs with hr
  · refine log_stopped (.reason _) hl4 fun hs => ?_
    have hserved := (Grown.snoc (o := .look) l2 trivial d).answered ((hg2 hs).answered (hg1.answered hl.2))
    refine hserved.append (List.forall_mem_singleton.mpr ?_)
    rintro (⟨_, h⟩ | ⟨_, _, r', h, hr'⟩ | ⟨_, h⟩ | h)
    · exact nomatch congrArg Sigma.fst h
    · cases h
      exact Bool.noConfusion (hr.symm.trans hr')
    · exact nomatch congrArg Sigma.fst h
    · exact nomatch congrArg Sigma.fst h
  · apply Prog.Safe.bind (log_activate version _ hl4)
    intro _ l5 hl5
    exact ⟨hl5.1, Or.inr hl5.2⟩

theorem removing_plain (name : String) : Removing Op.Plain name where
  listIn := trivial
  removeIn _ := trivial
  rmdir := trivial

theorem log_cleanUp {version staging : String} {out : Attempt} (h : TryEnds m out l) :
    (cleanUp version staging out).LogSafe (OnlyAfter (Gated m)) (fun _ => Served m) l := by
  have hrest : (do
      let d ← look
      if d.exists? (.entry staging) then rmtree staging : Run Unit).Within Op.Plain := by
    refine .opBind trivial fun (d : Disk) => ?_
    split_ifs
    · exact rmtree_within (removing_plain staging)
    · trivial
  unfold cleanUp
  split_ifs with hflags
  · apply log_call (o := .look) h.1 trivial
    intro d hl1
    apply log_restart hl1
    intro _ l2 hl2
    exact served_of_within hl2 hrest
  · exact served_of_within ⟨h.1, h.2.resolve_left hflags⟩ hrest

theorem log_stagedInstall (version : String) (hl : Served a.manifest l) :
    (stagedInstall (injectedEffects stop) a version).LogSafe (OnlyAfter (Gated a.manifest))
      (fun _ => Served a.manifest) l := by
  have hmake : (makeStaging version).Within Op.Plain := by
    refine .opBind trivial ?_
    rintro (e | _)
    · trivial
    · exact ⟨trivial, fun _ => trivial⟩
  apply Prog.Safe.bind (served_of_within hl hmake)
  rintro (e | staging) l1 hl1
  · exact served_of_within hl1 (failed_within trivial a version _)
  apply Prog.Safe.bind (log_installFrom version staging hl1)
  intro out l2 hl2
  apply Prog.Safe.bind (log_cleanUp hl2)
  intro _ l3 hl3
  split
  · exact hl3
  · exact hl3

theorem log_installUpdate (stop : Bool) (hl : Served a.manifest l) :
    (installUpdate (injectedEffects stop) a).LogSafe (OnlyAfter (Gated a.manifest)) (fun _ => Served a.manifest) l := by
  have hrefused : (refusedVersions a.forceReinstall).Within Op.Plain := by
    unfold refusedVersions
    split_ifs
    · trivial
    · exact ⟨trivial, fun _ => trivial⟩
  unfold installUpdate
  split
  · exact served_of_within hl (failed_within trivial a _ _)
  split_ifs
  · exact served_of_within hl (failed_within trivial a _ _)
  apply Prog.Safe.bind (served_of_within hl hrefused)
  intro refused l1 hl1
  dsimp only
  split_ifs
  · exact served_of_within hl1 (failed_within trivial a _ _)
  apply log_call (o := .look) hl1.1 trivial
  intro (d : Disk) hl2
  have hserved : Served a.manifest (l1 ++ [⟨.look, d⟩]) := ⟨hl2, (Grown.snoc (o := .look) l1 trivial d).answered hl1.2⟩
  split_ifs
  · exact log_stagedInstall _ hserved
  · exact served_of_within hserved (failed_within trivial a _ _)

/-- In every run of `install_update`, whatever the injected callables do, the switch is
called only after all that it depends on has succeeded, in order; and after each stop of
the services, each successful switch and each change of `current` by the rollback there
is a restart. -/
theorem switch_gated_and_changes_restarted (stop : Bool) (a : InstallArgs) (choices : ℕ → Choice) (w : World) :
    OnlyAfter (Gated a.manifest) ((installUpdate (injectedEffects stop) a).run journal choices ⟨w, []⟩).2.log ∧
      Answered NeedsRestart IsRestart ((installUpdate (injectedEffects stop) a).run journal choices ⟨w, []⟩).2.log := by
  have hnil : Served a.manifest [] := ⟨OnlyAfter.nil _, Answered.of_none (List.forall_mem_nil _)⟩
  have hsafe := (log_installUpdate stop hnil).traced (m := releaseTree) (A := fun _ => True) (t := ⟨w, []⟩)
  exact hsafe.run fun _ => trivial

end PiBuddyCam.Updater
