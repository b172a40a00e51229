import PiBuddyCam.UpdaterCli

/-! What one call can change in the releases directory, and from that what the loops
and the link swap of the updater can change. -/
namespace PiBuddyCam.Updater

def Op.MayTouch : Op → String → Prop
  | .mkdtemp stem, x => stem.toList <+: x.toList
  | .rename src dst, x => x = src ∨ x = dst
  | .replace src dst, x => x = src ∨ x = dst
  | .symlink _ name, x => x = name
  | .remove name, x => x = name
  | .removeIn name _, x => x = name
  | .rmdir name, x => x = name
  | .makedirsIn name, x => x = name
  | .openIn name _, x => x = name
  | .writeIn name _, x => x = name
  | .replaceIn name _ _, x => x = name
  | .effect e, x => e.staging = some x
  | _, _ => False

/-- Outside `S` the second tree is the first. -/
structure Frame (S : String → Prop) (d d' : Disk) : Prop where
  node : ∀ x, ¬ S x → d'.node x = d.node x
  outsideDirs : d'.outsideDirs = d.outsideDirs

theorem Frame.refl (S : String → Prop) (d : Disk) : Frame S d d := ⟨fun _ _ => rfl, rfl⟩

theorem Frame.trans {S : String → Prop} {d d' d'' : Disk} (h : Frame S d d') (h' : Frame S d' d'') :
    Frame S d d'' :=
  ⟨fun x hx => (h'.node x hx).trans (h.node x hx), h'.outsideDirs.trans h.outsideDirs⟩

theorem Frame.mono {S T : String → Prop} {d d' : Disk} (h : Frame S d d') (hST : ∀ x, S x → T x) :
    Frame T d d' :=
  ⟨fun x hx => h.node x (fun hS => hx (hST x hS)), h.outsideDirs⟩

variable (d : Disk)

theorem frame_put (name : String) (n : Node) : Frame (· = name) d (d.put name n) :=
  ⟨fun _ hx => d.node_put_of_ne name n hx, rfl⟩

theorem frame_del (name : String) : Frame (· = name) d (d.del name) :=
  ⟨fun _ hx => d.node_del_of_ne hx, rfl⟩

theorem frame_attempt {S : String → Prop} {d d' : Disk} (h : Frame S d d') (fails : Bool) (c : Choice)
    (allowed : Bool) : Frame S d (d.attempt fails c allowed d').2 := by
  unfold Disk.attempt
  split_ifs
  · exact h
  · exact Frame.refl S d

theorem frame_changeFiles (fails : Bool) (c : Choice) (name : String) (allowed : List String → Bool)
    (change : List String → List String) :
    Frame (· = name) d (d.changeFiles fails c name allowed change).2 := by
  unfold Disk.changeFiles
  split
  · exact frame_attempt (frame_put d name _) fails c _
  · exact Frame.refl _ d

theorem frame_move (c : Choice) (src dst : String) :
    Frame (fun x => x = src ∨ x = dst) d (d.move c src dst).2 := by
  unfold Disk.move
  split
  · exact Frame.refl _ d
  · apply frame_attempt
    exact ((frame_del d src).mono (fun x hx => Or.inl hx)).trans
      ((frame_put _ dst _).mono (fun x hx => Or.inr hx))

variable (w : World)

theorem frame_step (o : Op) (c : Choice) :
    Frame o.MayTouch w.disk (worldStep w o c).2.disk := by
  cases o with
  | mkdtemp stem =>
    simp only [worldStep, World.onDisk, Disk.mkdtemp]
    split_ifs
    · refine (frame_put _ _ _).mono ?_
      intro x hx
      rw [hx, Op.MayTouch, String.toList_append]
      exact List.prefix_append _ _
    · exact Frame.refl _ _
  | makedirs =>
    simp only [worldStep, World.onDisk, Disk.makedirs]
    split_ifs with hsome
    · exact Frame.refl _ _
    · apply frame_attempt
      refine ⟨fun x _ => ?_, rfl⟩
      have hnone : w.disk.releases = none := by
        cases hr : w.disk.releases with
        | none => rfl
        | some e => simp [hr] at hsome
      simp [Disk.node, hnone]
  | chmod name => exact frame_attempt (Frame.refl _ _) _ _ _
  | rename src dst => exact frame_move _ _ _ _
  | replace src dst => exact frame_move _ _ _ _
  | symlink target name => exact frame_attempt (frame_put _ _ _) _ _ _
  | remove name =>
    simp only [worldStep, World.onDisk, Disk.remove]
    split
    · exact frame_attempt (frame_del _ _) _ _ _
    · exact frame_attempt (frame_del _ _) _ _ _
    · exact Frame.refl _ _
  | removeIn name file => exact frame_changeFiles _ _ _ _ _ _
  | rmdir name =>
    simp only [worldStep, World.onDisk, Disk.rmdir]
    split
    · exact frame_attempt (frame_del _ _) _ _ _
    · exact Frame.refl _ _
  | makedirsIn name =>
    simp only [worldStep, World.onDisk, Disk.makedirsIn]
    split_ifs
    · exact Frame.refl _ _
    · exact frame_attempt (frame_put _ _ _) _ _ _
  | openIn name file => exact frame_changeFiles _ _ _ _ _ _
  | writeIn name file => exact frame_changeFiles _ _ _ _ _ _
  | replaceIn name src dst => exact frame_changeFiles _ _ _ _ _ _
  | effect e =>
    simp only [worldStep]
    cases hst : e.staging with
    | none => exact Frame.refl _ _
    | some staging =>
      simp only [Disk.leaveIn]
      split_ifs
      · exact (frame_put _ _ _).mono (fun x hx => by rw [hx, Op.MayTouch, hst])
      · exact Frame.refl _ _
  | writeLastCheck now =>
    simp only [worldStep]
    split_ifs
    · exact Frame.refl _ _
    · exact Frame.refl _ _
  | writeUpdateState doc =>
    simp only [worldStep]
    split_ifs
    · exact Frame.refl _ _
    · exact Frame.refl _ _
  | _ => exact Frame.refl _ _

def Op.Only (S : String → Prop) (o : Op) : Prop := ∀ x, o.MayTouch x → S x

variable {α : Type} {A : Choice → Prop} {P : Op → Prop}

theorem attempt_within {o : Op} (ho : P o) : (attempt o).Within P := ⟨ho, fun _ => trivial⟩

/-- The calls of `rmtree`. -/
structure Removing (P : Op → Prop) (name : String) : Prop where
  listIn : P (.listIn name)
  removeIn : ∀ file, P (.removeIn name file)
  rmdir : P (.rmdir name)

theorem rmtree_within {name : String} (h : Removing P name) : (rmtree name).Within P := by
  refine .opBind h.listIn fun files => ?_
  refine .bind (Prog.Within.forM fun file _ => attempt_within (h.removeIn file)) fun _ => ?_
  exact attempt_within h.rmdir

theorem removeDirs_within (hlook : P .look) (test : Disk → String → Bool) (names : List String)
    (h : ∀ x ∈ names, ∀ d, test d x = true → Removing P x) : (removeDirs test names).Within P := by
  induction names with
  | nil => trivial
  | cons name names ih =>
    have ih := ih fun x hx => h x (List.mem_cons_of_mem _ hx)
    refine .opBind hlook fun (d : Disk) => ?_
    split_ifs with htest
    · refine .bind (rmtree_within (h name List.mem_cons_self d htest)) fun _ => ?_
      exact .bind ih fun _ => trivial
    · exact ih

/-! What the calls on single entries come to. -/

theorem attempt_cases (d d' : Disk) (fails : Bool) (c : Choice) (allowed : Bool) :
    (allowed = true ∧ d.attempt fails c allowed d' = (.ok (), d')) ∨
      d.attempt fails c allowed d' = (.error c.error, d) := by
  unfold Disk.attempt
  split_ifs with h
  · exact Or.inl ⟨(Bool.and_eq_true _ _ ▸ h).1, rfl⟩
  · exact Or.inr rfl

theorem symlink_cases (target : Loc) (name : String) (c : Choice) :
    (w.disk.node name = none ∧
      worldStep w (.symlink target name) c = (.ok (), { w with disk := w.disk.put name (.link target) })) ∨
      worldStep w (.symlink target name) c = (.error c.error, w) := by
  simp only [worldStep, World.onDisk, Disk.symlink]
  rcases attempt_cases w.disk (w.disk.put name (.link target)) c.fails c
      (w.disk.releases.isSome && (w.disk.node name).isNone) with ⟨ha, h⟩ | h
  · rw [h]
    exact Or.inl ⟨Option.isNone_iff_eq_none.mp (Bool.and_eq_true _ _ ▸ ha).2, rfl⟩
  · rw [h]
    exact Or.inr rfl

theorem move_cases (c : Choice) (src dst : String) :
    (∃ n, d.node src = some n ∧ n.mayReplace (d.node dst) = true ∧
      d.move c src dst = (.ok (), (d.del src).put dst n)) ∨
      d.move c src dst = (.error c.error, d) := by
  unfold Disk.move
  cases hn : d.node src with
  | none => exact Or.inr rfl
  | some n =>
    rcases attempt_cases d ((d.del src).put dst n) c.fails c (n.mayReplace (d.node dst)) with ⟨ha, h⟩ | h
    · exact Or.inl ⟨n, rfl, ha, h⟩
    · exact Or.inr h

theorem remove_cases (name : String) (c : Choice) :
    worldStep w (.remove name) c = (.ok (), { w with disk := w.disk.del name }) ∨
      worldStep w (.remove name) c = (.error c.error, w) := by
  simp only [worldStep, World.onDisk, Disk.remove]
  rcases attempt_cases w.disk (w.disk.del name) c.removeFails c true with ⟨_, h⟩ | h
  · rw [h]
    split
    · exact Or.inl rfl
    · exact Or.inl rfl
    · exact Or.inr rfl
  · rw [h]
    split <;> exact Or.inr rfl

abbrev Entry := (o : Op) × Res o

abbrev Journal := Traced Op Res World

def journal : Machine Op Res Journal Choice := releaseTree.traced

def Traced.goOn (t : Journal) (d : Disk) (more : List Entry) : Journal :=
  ⟨{ t.state with disk := d }, t.log ++ more⟩

@[simp] theorem goOn_disk (t : Journal) (d : Disk) (more : List Entry) : (Traced.goOn t d more).state.disk = d := rfl

@[simp] theorem goOn_log (t : Journal) (d : Disk) (more : List Entry) :
    (Traced.goOn t d more).log = t.log ++ more := rfl

theorem goOn_goOn (t : Journal) (d d' : Disk) (more more' : List Entry) :
    Traced.goOn (Traced.goOn t d more) d' more' = Traced.goOn t d' (more ++ more') := by
  simp only [Traced.goOn, List.append_assoc]

section Calls

variable {β : Type} {I : Journal → Prop} {Q : β → Journal → Prop} {t : Journal}

theorem safe_sys {o : Op} {f : Res o → Run β}
    (h : ∀ c, A c → I ⟨(worldStep t.state o c).2, t.log ++ [⟨o, (worldStep t.state o c).1⟩]⟩ ∧
      (f (worldStep t.state o c).1).Safe journal A I Q
        ⟨(worldStep t.state o c).2, t.log ++ [⟨o, (worldStep t.state o c).1⟩]⟩) :
    (sys o >>= f).Safe journal A I Q t :=
  (Prog.safe_op_bind _ _).mpr h

/-- What is shown of a call that goes on as `p` after leaving `d` and `e`. -/
def GoesOn (A : Choice → Prop) (I : Journal → Prop) (Q : β → Journal → Prop) (t : Journal) (d : Disk) (e : Entry)
    (p : Run β) : Prop :=
  I (Traced.goOn t d [e]) ∧ p.Safe journal A I Q (Traced.goOn t d [e])

theorem safe_look {f : Disk → Run β}
    (h : GoesOn A I Q t t.state.disk ⟨.look, t.state.disk⟩ (f t.state.disk)) :
    (look >>= f).Safe journal A I Q t :=
  safe_sys fun _ _ => h

theorem safe_read {o : Op} {f : Res o → Run β} (ho : ∀ c, (worldStep t.state o c).2 = t.state)
    (h : ∀ r, GoesOn A I Q t t.state.disk ⟨o, r⟩ (f r)) : (sys o >>= f).Safe journal A I Q t := by
  apply safe_sys
  intro c _
  rw [ho c]
  exact h _

variable {f : Done → Run β}

theorem safe_makedirs (hrel : t.state.disk.releases.isSome = true)
    (h : GoesOn A I Q t t.state.disk ⟨.makedirs, .ok ()⟩ (f (.ok ()))) :
    (makedirs >>= f).Safe journal A I Q t := by
  apply safe_sys
  intro c _
  have hstep : worldStep t.state .makedirs c = (.ok (), t.state) := by
    simp only [worldStep, World.onDisk, Disk.makedirs, if_pos hrel]
  rw [hstep]
  exact h

theorem safe_symlink {target : Loc} {name : String}
    (hok : t.state.disk.node name = none →
      GoesOn A I Q t (t.state.disk.put name (.link target)) ⟨.symlink target name, .ok ()⟩ (f (.ok ())))
    (herr : ∀ e, GoesOn A I Q t t.state.disk ⟨.symlink target name, .error e⟩ (f (.error e))) :
    (symlink target name >>= f).Safe journal A I Q t := by
  apply safe_sys
  intro c _
  rcases symlink_cases t.state target name c with ⟨hnone, h⟩ | h
  · rw [h]
    exact hok hnone
  · rw [h]
    exact herr c.error

theorem safe_rename {src dst : String}
    (hok : ∀ n, t.state.disk.node src = some n → n.mayReplace (t.state.disk.node dst) = true →
      GoesOn A I Q t ((t.state.disk.del src).put dst n) ⟨.rename src dst, .ok ()⟩ (f (.ok ())))
    (herr : ∀ e, GoesOn A I Q t t.state.disk ⟨.rename src dst, .error e⟩ (f (.error e))) :
    (rename src dst >>= f).Safe journal A I Q t := by
  apply safe_sys
  intro c _
  simp only [worldStep, World.onDisk]
  rcases move_cases t.state.disk c src dst with ⟨n, hn, hmay, h⟩ | h
  · rw [h]
    exact hok n hn hmay
  · rw [h]
    exact herr c.error

theorem safe_replace {src dst : String}
    (hok : ∀ n, t.state.disk.node src = some n →
      GoesOn A I Q t ((t.state.disk.del src).put dst n) ⟨.replace src dst, .ok ()⟩ (f (.ok ())))
    (herr : ∀ e, GoesOn A I Q t t.state.disk ⟨.replace src dst, .error e⟩ (f (.error e))) :
    (replace src dst >>= f).Safe journal A I Q t := by
  apply safe_sys
  intro c _
  simp only [worldStep, World.onDisk]
  rcases move_cases t.state.disk c src dst with ⟨n, hn, _, h⟩ | h
  · rw [h]
    exact hok n hn
  · rw [h]
    exact herr c.error

theorem safe_removeFile {name : String} {f : Unit → Run β}
    (hok : GoesOn A I Q t (t.state.disk.del name) ⟨.remove name, .ok ()⟩ (f ()))
    (herr : ∀ e, GoesOn A I Q t t.state.disk ⟨.remove name, .error e⟩ (f ())) :
    (removeFile name >>= f).Safe journal A I Q t := by
  apply safe_sys (o := .remove name) (f := fun _ => f ())
  intro c _
  rcases remove_cases t.state name c with h | h
  · rw [h]
    exact hok
  · rw [h]
    exact herr c.error

end Calls

theorem chmod_state (name : String) (c : Choice) : (worldStep w (.chmod name) c).2 = w := by
  simp only [worldStep, World.onDisk]
  rcases attempt_cases w.disk w.disk c.fails c (w.disk.exists? (.entry name)) with ⟨_, h⟩ | h <;> rw [h]

theorem isSome_of_node {d : Disk} {x : String} {n : Node} (h : d.node x = some n) : d.releases.isSome = true := by
  unfold Disk.node at h
  cases hr : d.releases with
  | none => simp [hr] at h
  | some e => rfl

/-- The calls of `_atomic_symlink` up to a replacement that succeeds. -/
def QuietSwap (tmp link : String) (target : Loc) (e : Entry) : Prop :=
  e = ⟨.makedirs, .ok ()⟩ ∨ (∃ r, e = ⟨.symlink target tmp, r⟩) ∨ (∃ r, e = ⟨.remove tmp, r⟩) ∨
    ∃ error, e = ⟨.replace tmp link, .error error⟩

def SwapFailure (tmp link : String) (target : Loc) (e : Entry) : Prop :=
  ∃ error, e = ⟨.symlink target tmp, .error error⟩ ∨ e = ⟨.replace tmp link, .error error⟩

/-- `_atomic_symlink` in a releases directory that exists: until the replacement only the
temporary name changes, and after it the link points at the target. -/
theorem safe_atomicSymlink {I : Journal → Prop} {Q : Done → Journal → Prop} {t : Journal} {pid : ℕ} {target : Loc}
    {tmp link : String} (htmp : tmpLink pid link = tmp) (hrel : t.state.disk.releases.isSome = true)
    (hI : ∀ d more, Frame (· = tmp) t.state.disk d →
      (∀ e ∈ more, QuietSwap tmp link target e) → I (Traced.goOn t d more))
    (hok : ∀ d more, Frame (· = link) t.state.disk d →
      d.node link = some (.link target) → (∀ e ∈ more, QuietSwap tmp link target e) →
      (∀ e ∈ more, ¬ SwapFailure tmp link target e) →
      I (Traced.goOn t d (more ++ [⟨.replace tmp link, .ok ()⟩])) ∧
        Q (.ok ()) (Traced.goOn t d (more ++ [⟨.replace tmp link, .ok ()⟩])))
    (herr : ∀ d more e, Frame (· = tmp) t.state.disk d →
      (∀ e ∈ more, QuietSwap tmp link target e) →
      (∃ e ∈ more, SwapFailure tmp link target e) → Q (.error e) (Traced.goOn t d more)) :
    (atomicSymlink pid target link).Safe journal A I Q t := by
  rw [atomicSymlink, htmp]
  have hsnoc (more : List Entry) (x : Entry) (hmore : ∀ e ∈ more, QuietSwap tmp link target e)
      (hx : QuietSwap tmp link target x) :
      ∀ e ∈ more ++ [x], QuietSwap tmp link target e :=
    List.forall_mem_append.mpr ⟨hmore, List.forall_mem_singleton.mpr hx⟩
  have hmake : ∀ e ∈ [(⟨.makedirs, .ok ()⟩ : Entry)], QuietSwap tmp link target e :=
    List.forall_mem_singleton.mpr (Or.inl rfl)
  have hsym (r : Done) := hsnoc _ ⟨.symlink target tmp, r⟩ hmake (Or.inr (Or.inl ⟨r, rfl⟩))
  have hrep (e : String) := hsnoc _ ⟨.replace tmp link, .error e⟩ (hsym (.ok ()))
    (Or.inr (Or.inr (Or.inr ⟨e, rfl⟩)))
  -- after a failed step the temporary name is removed and the error goes up
  have hgiveUp (d : Disk) (more : List Entry) (e : String) (hd : Frame (· = tmp) t.state.disk d)
      (hmore : ∀ e ∈ more, QuietSwap tmp link target e)
      (hfail : ∃ e ∈ more, SwapFailure tmp link target e) :
      (removeFile tmp >>= fun _ => pure (.error e)).Safe journal A I Q (Traced.goOn t d more) := by
    obtain ⟨x, hx, hxf⟩ := hfail
    have hmore' (r : Done) := hsnoc more ⟨.remove tmp, r⟩ hmore (Or.inr (Or.inr (Or.inl ⟨r, rfl⟩)))
    apply safe_removeFile
    · have hd' := hd.trans (frame_del d tmp)
      rw [GoesOn, goOn_goOn]
      exact ⟨hI _ _ hd' (hmore' _), herr _ _ e hd' (hmore' _) ⟨x, List.mem_append_left _ hx, hxf⟩⟩
    · intro _
      rw [GoesOn, goOn_goOn]
      exact ⟨hI _ _ hd (hmore' _), herr _ _ e hd (hmore' _) ⟨x, List.mem_append_left _ hx, hxf⟩⟩
  have hput := frame_put t.state.disk tmp (.link target)
  apply safe_makedirs hrel
  refine ⟨hI _ _ (Frame.refl _ _) hmake, ?_⟩
  apply safe_symlink
  · intro hnone
    rw [GoesOn, goOn_goOn]
    refine ⟨hI _ _ hput (hsym _), ?_⟩
    apply safe_replace
    · intro n hn
      rw [goOn_disk, Disk.node_put_self] at hn
      rw [GoesOn, goOn_goOn, ← Option.some.inj hn]
      -- the temporary name was free before, and is free again
      have hframe : Frame (· = link) t.state.disk
          (((t.state.disk.put tmp (.link target)).del tmp).put link (.link target)) := by
        refine ⟨fun x hx => (Disk.node_put_of_ne _ _ _ hx).trans ?_, rfl⟩
        by_cases hx' : x = tmp
        · rw [hx', Disk.node_del_self]
          exact hnone.symm
        · rw [Disk.node_del_of_ne _ hx', Disk.node_put_of_ne _ _ _ hx']
      refine hok _ _ hframe (Disk.node_put_self _ _ _) (hsym _) ?_
      rintro x hx ⟨error, he⟩
      rcases List.mem_append.mp hx with hx | hx <;> rw [List.mem_singleton.mp hx] at he <;>
        rcases he with he | he <;> cases he
    · intro e
      rw [GoesOn, goOn_goOn]
      exact ⟨hI _ _ hput (hrep e), hgiveUp _ _ e hput (hrep e)
        ⟨_, List.mem_append_right _ List.mem_cons_self, e, Or.inr rfl⟩⟩
  · intro e
    rw [GoesOn, goOn_goOn]
    exact ⟨hI _ _ (Frame.refl _ _) (hsym _), hgiveUp _ _ e (Frame.refl _ _) (hsym _)
      ⟨_, List.mem_append_right _ List.mem_cons_self, e, Or.inl rfl⟩⟩

end PiBuddyCam.Updater
