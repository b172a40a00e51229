import PiBuddyCam.UpdaterRuns

/-! Runs in which removals and reads succeed and every other call may fail: what they
leave untouched, and that `rmtree` does its work. -/
namespace PiBuddyCam.Updater

def Reliable (c : Choice) : Prop := c.removeFails = false ∧ c.readFails = false

def CurrentSwapFailed (pid : ℕ) (log : List Entry) : Prop :=
  ∃ e ∈ log, ∃ target, SwapFailure (tmpLink pid currentLink) currentLink target e

theorem swapFailed_append {pid : ℕ} (log more : List Entry) :
    CurrentSwapFailed pid (log ++ more) ↔ CurrentSwapFailed pid log ∨ CurrentSwapFailed pid more := by
  constructor
  · rintro ⟨e, he, h⟩
    rcases List.mem_append.mp he with he | he
    · exact Or.inl ⟨e, he, h⟩
    · exact Or.inr ⟨e, he, h⟩
  · rintro (⟨e, he, h⟩ | ⟨e, he, h⟩)
    · exact ⟨e, List.mem_append_left _ he, h⟩
    · exact ⟨e, List.mem_append_right _ he, h⟩

def Op.NoSwap : Op → Prop
  | .symlink _ _ | .replace _ _ => False
  | _ => True

theorem swapFailed_log (pid : ℕ) {o : Op} (ho : o.NoSwap) (log : List Entry) (r : Res o) :
    CurrentSwapFailed pid (log ++ [⟨o, r⟩]) ↔ CurrentSwapFailed pid log := by
  rw [swapFailed_append, or_iff_left]
  rintro ⟨e, he, target, error, h | h⟩ <;> cases (List.mem_singleton.mp he).symm.trans h <;> exact ho

/-- Nothing changed outside `S`, and no swap of `current` has failed since. -/
structure Steady (pid : ℕ) (S : String → Prop) (t u : Journal) : Prop where
  frame : Frame S t.state.disk u.state.disk
  swaps : CurrentSwapFailed pid u.log ↔ CurrentSwapFailed pid t.log

section Steady

variable {pid : ℕ} {S T : String → Prop} {t u v : Journal}

theorem Steady.refl (pid : ℕ) (S : String → Prop) (t : Journal) : Steady pid S t t := ⟨Frame.refl _ _, Iff.rfl⟩

theorem Steady.trans (h : Steady pid S t u) (h' : Steady pid S u v) : Steady pid S t v :=
  ⟨h.frame.trans h'.frame, h'.swaps.trans h.swaps⟩

theorem Steady.mono (h : Steady pid S t u) (hST : ∀ x, S x → T x) : Steady pid T t u :=
  ⟨h.frame.mono hST, h.swaps⟩

theorem Frame.narrow {d d' : Disk} (h : Frame S d d') (hback : ∀ x, S x → ¬ T x → d'.node x = d.node x) :
    Frame T d d' := by
  refine ⟨fun x hx => ?_, h.outsideDirs⟩
  by_cases hS : S x
  · exact hback x hS hx
  · exact h.node x hS

structure Op.IsSteady (S : String → Prop) (o : Op) : Prop where
  only : o.Only S
  noSwap : o.NoSwap

theorem steady_log (pid : ℕ) {o : Op} (ho : o.NoSwap) (r : Res o) (t : Journal) (S : String → Prop) :
    Steady pid S t (Traced.goOn t t.state.disk [⟨o, r⟩]) :=
  ⟨Frame.refl _ _, swapFailed_log pid ho t.log r⟩

end Steady

def Ensures {α : Type} (p : Run α) (Q : α → Journal → Prop) (t : Journal) : Prop :=
  p.Safe journal Reliable (fun _ => True) Q t

variable {α : Type} {pid : ℕ} {S : String → Prop} {t u : Journal}

theorem steady_of_within {p : Run α} (hu : Steady pid S t u) (hp : p.Within (Op.IsSteady S)) :
    Ensures p (fun _ => Steady pid S t) u := by
  have h := Prog.Within.safe (m := journal) (A := Reliable) (J := Steady pid S t) hp hu ?_
  · exact h.mono (fun _ _ => trivial) fun _ _ h => h
  · intro v o c ho _ hv
    exact hv.trans ⟨(frame_step v.state o c).mono ho.only, swapFailed_log pid ho.noSwap v.log _⟩

variable {name : String}

theorem removing_steady (h : S name) : Removing (Op.IsSteady S) name where
  listIn := ⟨fun _ hx => hx.elim, trivial⟩
  removeIn _ := ⟨fun _ hx => hx ▸ h, trivial⟩
  rmdir := ⟨fun _ hx => hx ▸ h, trivial⟩

theorem steady_look (S : String → Prop) : Op.IsSteady S .look := ⟨fun _ hx => hx.elim, trivial⟩

/-! Removals that succeed. -/

theorem mem_arrange (c : Choice) (names : List String) (x : String) : x ∈ c.arrange names ↔ x ∈ names := by
  unfold Choice.arrange
  split_ifs with h
  · exact (List.isPerm_iff.mp h).mem_iff
  · exact Iff.rfl

theorem removeFiles_empty (files names : List String) (hsub : ∀ f ∈ files, f ∈ names)
    (hdir : t.state.disk.node name = some (.dir files)) :
    Ensures (names.forM fun file => attempt (.removeIn name file))
      (fun _ u => u.state.disk.node name = some (.dir [])) t := by
  induction names generalizing files t with
  | nil =>
    obtain rfl : files = [] := List.eq_nil_iff_forall_not_mem.mpr fun f hf => List.not_mem_nil (hsub f hf)
    exact hdir
  | cons file names ih =>
    apply safe_sys (o := .removeIn name file) (f := fun _ => names.forM fun file => attempt (.removeIn name file))
    intro c hc
    refine ⟨trivial, ?_⟩
    simp only [worldStep, World.onDisk, Disk.changeFiles, hdir, Disk.attempt, hc.1, Bool.not_false, Bool.and_true,
      List.contains_iff_mem]
    split_ifs with hmem
    · refine ih (files.filter (· ≠ file)) ?_ (Disk.node_put_self _ _ _)
      intro f hf
      obtain ⟨hf, hne⟩ := List.mem_filter.mp hf
      exact (List.mem_cons.mp (hsub f hf)).resolve_left (of_decide_eq_true hne)
    · refine ih files ?_ hdir
      intro f hf
      refine (List.mem_cons.mp (hsub f hf)).resolve_left ?_
      rintro rfl
      exact hmem hf

theorem listIn_of_reads {w : World} {files : List String} {c : Choice}
    (hfiles : w.disk.node name = some (.dir files)) (hc : c.readFails = false) :
    worldStep w (.listIn name) c = (.ok (c.arrange files), w) := by
  simp only [worldStep, Disk.files?, hfiles, Option.map_some, Choice.read, hc, Bool.false_eq_true, if_false]

theorem isRealDir_iff {d : Disk} {x : String} : d.isRealDir x = true ↔ ∃ files, d.node x = some (.dir files) := by
  unfold Disk.isRealDir
  split
  · exact iff_of_true rfl ⟨_, ‹_›⟩
  · rename_i hnot
    exact iff_of_false Bool.false_ne_true fun ⟨files, h⟩ => hnot files h

theorem rmtree_gone (hdir : t.state.disk.isRealDir name = true) :
    Ensures (rmtree name) (fun _ u => u.state.disk.node name = none) t := by
  obtain ⟨files, hfiles⟩ := isRealDir_iff.mp hdir
  apply safe_sys (o := .listIn name)
  intro c hc
  refine ⟨trivial, ?_⟩
  rw [listIn_of_reads hfiles hc.2]
  refine .bind (removeFiles_empty files (c.arrange files) (fun f hf => (mem_arrange c files f).mpr hf) hfiles) ?_
  intro _ u hu
  apply safe_sys (o := .rmdir name) (f := fun _ => pure ())
  intro c hc
  refine ⟨trivial, ?_⟩
  simp only [worldStep, World.onDisk, Disk.rmdir, hu, Disk.attempt, hc.1, Bool.not_false, Bool.and_self, if_true]
  exact Disk.node_del_self _ _

theorem rmtree_steady (pid : ℕ) (hdir : t.state.disk.isRealDir name = true) :
    Ensures (rmtree name) (fun _ u => Steady pid (· = name) t u ∧ u.state.disk.node name = none) t := by
  have h := Prog.Safe.conj (steady_of_within (Steady.refl pid (· = name) t)
    (rmtree_within (removing_steady rfl))) (rmtree_gone hdir)
  exact h.mono (fun _ _ => trivial) fun _ _ h => h

end PiBuddyCam.Updater
