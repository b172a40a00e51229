import PiBuddyCam.UpdaterInvariant

/-! Where an install stands, read off the log of its calls, and which release may be
active then. -/
namespace PiBuddyCam.Updater

/-- `active` lasts from the swap of `current` by `switch_release` to the health verdict
on the new version, or to the swap or the removal of `current` that rolls it back. -/
inductive Phase where
  | idle
  | renamed (version : String)
  | active (version : String)
  deriving DecidableEq

def phaseStep : Phase → Entry → Phase
  | p, ⟨.rename _ version, r⟩ => if Except.toBool (r : Done) then .renamed version else p
  | .renamed version, ⟨.replace _ dst, r⟩ =>
    if dst = currentLink ∧ Except.toBool (r : Done) then .active version else .renamed version
  | .active version, ⟨.replace _ dst, r⟩ =>
    if dst = currentLink ∧ Except.toBool (r : Done) then .idle else .active version
  | .active version, ⟨.remove name, r⟩ =>
    if name = currentLink ∧ Except.toBool (r : Done) then .idle else .active version
  | .active version, ⟨.effect (.healthCheck v), r⟩ => if v = version ∧ healthOk r then .idle else .active version
  | p, _ => p

def phase (log : List Entry) : Phase := log.foldl phaseStep .idle

def Settled (log : List Entry) : Prop := ∀ version, phase log ≠ .active version

theorem phase_append (log more : List Entry) : phase (log ++ more) = more.foldl phaseStep (phase log) :=
  List.foldl_append

def HealthPassed (version : String) (log : List Entry) : Prop :=
  ∃ r, healthOk r = true ∧ (⟨.effect (.healthCheck version), r⟩ : Entry) ∈ log

def Trusted (base : Loc → Prop) (log : List Entry) (l : Loc) : Prop :=
  base l ∨ ∃ version, l = .entry version ∧ HealthPassed version log

variable {base : Loc → Prop}

theorem Trusted.append {log : List Entry} {l : Loc} (h : Trusted base log l) (more : List Entry) :
    Trusted base (log ++ more) l := by
  rcases h with h | ⟨v, hv, r, hr, hmem⟩
  · exact Or.inl h
  · exact Or.inr ⟨v, hv, r, hr, List.mem_append_left more hmem⟩

/-- The invariant of a run: the tree is well formed, and once the log is settled the
active release is trusted. -/
structure Inv (base : Loc → Prop) (t : Journal) : Prop where
  wellFormed : WellFormed t.state.disk
  trusted : Settled t.log → Trusted base t.log (currentTarget t.state.disk)

/-- The kept entries and the phase are as in `t`. -/
structure Calm (t t' : Journal) : Prop where
  frame : Frame (fun x => ¬ Kept t.state.disk x) t.state.disk t'.state.disk
  log : ∃ more, t'.log = t.log ++ more
  phase : phase t'.log = phase t.log

theorem Calm.refl (t : Journal) : Calm t t := ⟨Frame.refl _ _, ⟨[], (List.append_nil _).symm⟩, rfl⟩

theorem Calm.trans {t t' t'' : Journal} (h : Calm t t') (h' : Calm t' t'') : Calm t t'' := by
  obtain ⟨more, hmore⟩ := h.log
  obtain ⟨more', hmore'⟩ := h'.log
  refine ⟨h.frame.trans (h'.frame.mono fun x hx hk => hx ((kept_of_frame h.frame x).mpr hk)), ?_,
    h'.phase.trans h.phase⟩
  exact ⟨more ++ more', by rw [hmore', hmore, List.append_assoc]⟩

theorem Inv.of_calm {t t' : Journal} (h : Inv base t) (hc : Calm t t') : Inv base t' := by
  obtain ⟨more, hmore⟩ := hc.log
  refine ⟨h.wellFormed.of_frame hc.frame, fun hs => ?_⟩
  rw [currentTarget_of_frame h.wellFormed hc.frame, hmore]
  apply Trusted.append
  apply h.trusted
  intro v
  rw [← hc.phase]
  exact hs v

structure Op.Quiet (S : String → Prop) (o : Op) : Prop where
  only : o.Only S
  silent : ∀ p (r : Res o), phaseStep p ⟨o, r⟩ = p

variable {α : Type} {A : Choice → Prop}

theorem calm_of_within {p : Run α} {t u : Journal} (hu : Calm t u)
    (hp : p.Within (Op.Quiet (fun x => ¬ Kept t.state.disk x))) :
    p.Keeps journal A (Calm t) u := by
  refine Prog.Within.safe hp hu ?_
  intro u o c ho _ hu
  obtain ⟨more, hmore⟩ := hu.log
  refine ⟨hu.frame.trans ((frame_step u.state o c).mono ho.only), ⟨more ++ [⟨o, (worldStep u.state o c).1⟩], ?_⟩, ?_⟩
  · rw [← List.append_assoc, ← hmore]
    rfl
  · rw [← hu.phase]
    exact (phase_append _ _).trans (ho.silent _ _)

theorem quiet_of_read {S : String → Prop} {o : Op} (htouch : ∀ x, ¬ o.MayTouch x)
    (hsilent : ∀ p (r : Res o), phaseStep p ⟨o, r⟩ = p) : o.Quiet S :=
  ⟨fun x hx => absurd hx (htouch x), hsilent⟩

theorem quiet_look (S : String → Prop) : Op.Quiet S .look :=
  quiet_of_read (fun _ h => h) (fun p _ => by cases p <;> rfl)

theorem quiet_listdir (S : String → Prop) : Op.Quiet S .listdir :=
  quiet_of_read (fun _ h => h) (fun p _ => by cases p <;> rfl)

theorem removing_quiet {S : String → Prop} {name : String} (h : S name) : Removing (Op.Quiet S) name where
  listIn := quiet_of_read (fun _ h => h) (fun p _ => by cases p <;> rfl)
  removeIn := fun _ => ⟨fun _ hx => hx ▸ h, fun p _ => by cases p <;> rfl⟩
  rmdir := ⟨fun _ hx => hx ▸ h, fun p _ => by cases p <;> rfl⟩

section CalmRules

variable {β : Type} {Q : β → Journal → Prop} {t u : Journal}

theorem calm_within {p : Run α} {f : α → Run β} (hu : Calm t u)
    (hp : p.Within (Op.Quiet (fun x => ¬ Kept t.state.disk x)))
    (hf : ∀ a u', Calm t u' → (f a).Safe journal A (Calm t) Q u') : (p >>= f).Safe journal A (Calm t) Q u :=
  Prog.Safe.bind (calm_of_within hu hp) hf

theorem calm_look {f : Disk → Run β} (hu : Calm t u)
    (hf : ∀ u', Calm t u' → u'.state = u.state → (f u.state.disk).Safe journal A (Calm t) Q u') :
    (look >>= f).Safe journal A (Calm t) Q u := by
  have hlook : Calm t (Traced.goOn u u.state.disk [⟨.look, u.state.disk⟩]) := by
    refine hu.trans ⟨Frame.refl _ _, ⟨_, rfl⟩, ?_⟩
    exact (phase_append _ _).trans ((quiet_look (fun _ => False)).silent _ u.state.disk)
  exact safe_look ⟨hlook, hf _ hlook rfl⟩

end CalmRules

theorem safe_of_calm {β : Type} {p : Run α} {f : α → Run β} {Q : β → Journal → Prop} {t : Journal}
    (ht : Inv base t) (hp : p.Keeps journal A (Calm t) t)
    (hf : ∀ a t', Calm t t' → Inv base t' → (f a).Safe journal A (Inv base) Q t') :
    (p >>= f).Safe journal A (Inv base) Q t :=
  Prog.Safe.bind (hp.mono (fun _ => ht.of_calm) fun _ _ h => h) fun a t' h => hf a t' h (ht.of_calm h)

end PiBuddyCam.Updater
