import PiBuddyCam.MigrationEdits

/-! Boots, each of which may be cut after any call: what the record of the migrations says after any number of
them. -/
namespace PiBuddyCam.Migrations

abbrev Entry := (o : Op) × Res o

abbrev Journal := Traced Op Res Device

def called (log : List Entry) : List String :=
  log.filterMap fun e => match e.1 with
    | .enter name => some name
    | _ => none

def recorded (d : Device) : List String := d.state.load

def pending (d : Device) : List String := (migrations.filter (fun m => !(recorded d).contains m.name)).map Migration.name

def boot (choices : List Choice) (d : Device) : Option (Except Stop (List String)) × Journal :=
  (runPending migrations).exec device.traced choices ⟨d, []⟩

def bootAll (boots : List (List Choice)) (d : Device) : Device := boots.foldl (fun d choices => (boot choices d).2.state) d

def Op.OnRoot : Op → Prop
  | .enter _ | .remount _ | .loadState | .makeStateDir | .openTmp | .writeTmp _ | .replaceTmp => False
  | _ => True

section Within

open Prog

theorem within_makedirs (paths : List String) : (makedirs paths).Within Op.OnRoot := by
  apply Within.foldOk
  intro _ path _
  exact ⟨trivial, fun _ => trivial⟩

theorem within_save (path text : String) : (save path text).Within Op.OnRoot :=
  Within.andThen ⟨trivial, fun _ => trivial⟩ fun _ => ⟨trivial, fun _ => trivial⟩

theorem within_editFile (path : String) (edit : String → Edit) (reload : Bool) :
    (editFile path edit reload).Within Op.OnRoot := by
  refine ⟨trivial, fun r => ?_⟩
  change Within Op.OnRoot (if Root.isfile r path = true then _ else _)
  split
  · refine Within.andThen ⟨trivial, fun _ => trivial⟩ fun content => ?_
    cases edit content with
    | done => trivial
    | missing => trivial
    | changed content =>
      refine (within_save path content).andThen fun _ => ?_
      cases reload with
      | false => trivial
      | true => exact Within.andThen ⟨trivial, fun _ => trivial⟩ fun _ => trivial
  · trivial

theorem within_includeShare : includeShare.Within Op.OnRoot := by
  refine ⟨trivial, fun r => ?_⟩
  change Within Op.OnRoot (if Root.isfile r mainConf = true then _ else _)
  split_ifs
  · refine Within.andThen ⟨trivial, fun _ => trivial⟩ fun content => ?_
    split_ifs
    · trivial
    · exact Within.andThen ⟨trivial, fun _ => trivial⟩ fun _ => ⟨trivial, fun _ => trivial⟩
  · exact within_save _ _

theorem within_maskConsoleSetup : maskConsoleSetup.Within Op.OnRoot := by
  have hunit : maskUnit.Within Op.OnRoot :=
    (within_makedirs _).andThen fun _ => Within.andThen ⟨trivial, fun _ => trivial⟩ fun _ => trivial
  refine ⟨trivial, fun r => ?_⟩
  change Within Op.OnRoot (if isMask (r consoleSetup) = true then pure (.ok true) else
    if ((found (r consoleSetup)).isSome && !isLink (r consoleSetup)) = true then
      (remove consoleSetup).andThen fun _ => maskUnit else maskUnit)
  split_ifs
  · trivial
  · exact Within.andThen ⟨trivial, fun _ => trivial⟩ fun _ => hunit
  · exact hunit

theorem within_apply : ∀ m ∈ migrations, m.apply.Within Op.OnRoot := by
  simp only [migrations, List.forall_mem_cons]
  refine ⟨?_, ?_, within_maskConsoleSetup, within_editFile _ _ _, within_editFile _ _ _, within_editFile _ _ _,
    within_editFile _ _ _, List.forall_mem_nil _⟩
  · exact (within_makedirs _).andThen fun _ => ⟨trivial, fun _ => trivial⟩
  · exact (within_makedirs _).andThen fun _ => (within_save _ _).andThen fun _ => within_includeShare.andThen fun _ =>
      (within_makedirs _).andThen fun _ => (within_save _ _).andThen fun _ => trivial

end Within

theorem called_append (log more : List Entry) : called (log ++ more) = called log ++ called more :=
  List.filterMap_append

structure SameRecord (t u : Journal) : Prop where
  state : u.state.state = t.state.state
  tmp : u.state.tmp = t.state.tmp
  calls : called u.log = called t.log

theorem sameRecord_step (t : Journal) {o : Op} (ho : o.OnRoot) (c : Choice) :
    SameRecord t (device.traced.step t o c).2 := by
  have hlog : called (t.log ++ [⟨o, (deviceStep t.state o c).1⟩]) = called t.log := by
    rw [called_append]
    cases o <;> first | exact List.append_nil _ | exact ho.elim
  cases o <;> first | exact ho.elim | exact ⟨rfl, rfl, hlog⟩

section Boot

variable {d : Device}

/-- What holds at every point of a boot of `d`. -/
structure Booting (d : Device) (t : Journal) : Prop where
  grows : recorded d ⊆ recorded t.state
  inOrder : called t.log <+: pending d

structure Unsaved (d : Device) (names : List String) (t : Journal) : Prop where
  state : t.state.state = d.state
  calls : called t.log = names

variable {t : Journal} {names : List String}

theorem Unsaved.booting (h : Unsaved d names t) (hnames : names <+: pending d) :
    Booting d t := by
  refine ⟨?_, h.calls ▸ hnames⟩
  rw [recorded, recorded, h.state]
  exact List.Subset.refl _

theorem Unsaved.of_same {t u : Journal} (h : Unsaved d names t) (hu : SameRecord t u) :
    Unsaved d names u := ⟨hu.state.trans h.state, hu.calls.trans h.calls⟩

theorem safe_applyAll {ms : List Migration} (hms : ∀ m ∈ ms, m.apply.Within Op.OnRoot) {applied newly names : List String}
    (hnames : names ++ ms.map Migration.name = pending d) (happlied : recorded d ⊆ applied)
    (ht : Unsaved d names t) :
    (applyAll ms applied newly).Safe device.traced (fun _ => True) (Booting d)
      (fun r u => Unsaved d (pending d) u ∧ recorded d ⊆ r.1) t := by
  induction ms generalizing applied newly names t with
  | nil =>
    rw [List.map_nil, List.append_nil] at hnames
    exact ⟨hnames ▸ ht, happlied⟩
  | cons m ms ih =>
    obtain ⟨hm, hms⟩ := List.forall_mem_cons.mp hms
    have hnext : (names ++ [m.name]) ++ ms.map Migration.name = pending d := by
      rw [← hnames, List.map_cons, List.append_assoc, List.singleton_append]
    have hbefore : names ++ [m.name] <+: pending d := ⟨_, hnext⟩
    intro c _
    have hcalled : Unsaved d (names ++ [m.name]) (device.traced.step t (.enter m.name) c).2 := by
      refine ⟨ht.state, ?_⟩
      change called (t.log ++ [⟨.enter m.name, ()⟩]) = _
      rw [called_append, ht.calls]
      rfl
    refine ⟨hcalled.booting hbefore, ?_⟩
    have hrun : m.apply.Safe device.traced (fun _ => True) (Unsaved d (names ++ [m.name]))
        (fun _ => Unsaved d (names ++ [m.name])) (device.traced.step t (.enter m.name) c).2 :=
      hm.safe hcalled fun u o c ho _ hu => hu.of_same (sameRecord_step u ho c)
    apply Prog.Safe.bind (hrun.mono (fun u hu => hu.booting hbefore) fun _ _ h => h)
    intro ok u hu
    split_ifs
    · exact ih hms hnext (fun x hx => List.mem_insert_of_mem (happlied hx)) hu
    · exact ih hms hnext happlied hu

theorem Unsaved.step (h : Unsaved d names t) {o : Op} (ho : ∀ name, o ≠ .enter name)
    (hreplace : o ≠ .replaceTmp) (c : Choice) : Unsaved d names (device.traced.step t o c).2 := by
  have hlog : called (t.log ++ [⟨o, (deviceStep t.state o c).1⟩]) = called t.log := by
    rw [called_append]
    cases o <;> first | exact List.append_nil _ | exact absurd rfl (ho _)
  refine ⟨?_, hlog.trans h.calls⟩
  rw [← h.state]
  change (deviceStep t.state o c).2.state = t.state.state
  cases o with
  | replaceTmp => exact absurd rfl hreplace
  | openTmp =>
    rw [deviceStep]
    split_ifs <;> rfl
  | writeTmp applied =>
    rw [deviceStep]
    split_ifs <;> rfl
  | _ => rfl

def Tried (d : Device) (t : Journal) : Prop := Booting d t ∧ called t.log = pending d

theorem Unsaved.tried (h : Unsaved d (pending d) t) : Tried d t :=
  ⟨h.booting List.prefix_rfl, h.calls⟩

theorem safe_saveState {applied : List String} (happlied : recorded d ⊆ applied)
    (ht : Unsaved d (pending d) t) :
    (saveState applied).Safe device.traced (fun _ => True) (Booting d) (fun _ => Tried d) t := by
  -- until the replacement, the record and the calls stay as they are
  have hcall (o : Op) (ho : ∀ name, o ≠ .enter name) (hreplace : o ≠ .replaceTmp) {u : Journal}
      (hu : Unsaved d (pending d) u) :
      (sys o).Safe device.traced (fun _ => True) (Booting d) (fun _ => Unsaved d (pending d)) u := fun c _ =>
    ⟨(hu.step ho hreplace c).tried.1, hu.step ho hreplace c⟩
  apply Prog.Safe.bind (p := makeStateDir) (hcall .makeStateDir (fun _ => nofun) nofun ht)
  rintro (e | ⟨⟩) u hu
  · exact hu.tried
  apply Prog.Safe.bind (p := openTmp) (hcall .openTmp (fun _ => nofun) nofun hu)
  rintro (e | ⟨⟩) v hv
  · exact hv.tried
  obtain ⟨sorted, hsorted⟩ : ∃ sorted, sorted = applied.mergeSort (fun a b => decide (a ≤ b)) := ⟨_, rfl⟩
  rw [← hsorted]
  have hwritten : (writeTmp sorted).Safe device.traced (fun _ => True) (Booting d)
      (fun r w => Unsaved d (pending d) w ∧ (r = .ok () → w.state.tmp = .saved sorted)) v := by
    intro c _
    have hw := hv.step (o := .writeTmp sorted) (fun _ => nofun) nofun c
    refine ⟨hw.tried.1, hw, ?_⟩
    change (deviceStep v.state (.writeTmp sorted) c).1 = .ok () → (deviceStep v.state (.writeTmp sorted) c).2.tmp = _
    rw [deviceStep]
    split_ifs
    · exact nofun
    · exact fun _ => rfl
  apply Prog.Safe.bind hwritten
  rintro (e | ⟨⟩) w ⟨hw, htmp⟩
  · exact hw.tried
  intro c _
  have hdone : Tried d (device.traced.step w .replaceTmp c).2 := by
    have hcalls : called (w.log ++ [⟨.replaceTmp, (deviceStep w.state .replaceTmp c).1⟩]) = pending d := by
      rw [called_append, hw.calls]
      exact List.append_nil _
    refine ⟨⟨?_, hcalls.symm ▸ List.prefix_rfl⟩, hcalls⟩
    change recorded d ⊆ (deviceStep w.state .replaceTmp c).2.state.load
    rw [deviceStep]
    split_ifs
    · exact hw.tried.1.grows
    · intro name hname
      rw [htmp rfl, StateFile.load, List.mem_dedup, hsorted, List.mem_mergeSort]
      exact happlied hname
  exact ⟨hdone.1, hdone⟩

def record (applied newly : List String) : Run (Except Stop (List String)) := do
  match ← saveState applied with
  | .error e => pure (.error (.save e))
  | .ok () => pure (.ok newly)

theorem safe_finish (remounted : Bool) {applied newly : List String} (happlied : recorded d ⊆ applied)
    (ht : Unsaved d (pending d) t) :
    (finish remounted applied newly).Safe device.traced (fun _ => True) (Booting d) (fun _ => Tried d) t := by
  have hsave (u : Journal) (hu : Unsaved d (pending d) u) :
      (record applied newly).Safe device.traced (fun _ => True) (Booting d) (fun _ => Tried d) u := by
    apply Prog.Safe.bind (safe_saveState happlied hu)
    rintro (e | ⟨⟩) v hv
    · exact hv
    · exact hv
  cases remounted with
  | false => exact hsave t ht
  | true =>
    intro c _
    have hu := ht.step (o := .remount .ro) (by simp) (by simp) c
    refine ⟨hu.tried.1, ?_⟩
    generalize hstep : device.traced.step t (.remount .ro) c = out at hu ⊢
    obtain ⟨back, u⟩ := out
    cases back with
    | error e => exact hu.tried
    | ok a => exact hsave _ hu

theorem safe_runPending (d : Device) :
    (runPending migrations).Safe device.traced (fun _ => True) (Booting d)
      (fun r t => Booting d t ∧ (r ≠ .error (.remount .rw) → called t.log = pending d)) ⟨d, []⟩ := by
  have h0 : Unsaved d [] ⟨d, []⟩ := ⟨rfl, rfl⟩
  intro c _
  have h1 := h0.step (o := .loadState) (fun _ => nofun) nofun c
  refine ⟨h1.booting List.nil_prefix, ?_⟩
  obtain ⟨t, ht⟩ : ∃ t, t = (device.traced.step ⟨d, []⟩ .loadState c).2 := ⟨_, rfl⟩
  rw [← ht] at h1 ⊢
  change Prog.Safe _ _ _ (if (migrations.filter (fun m => !(recorded d).contains m.name)).isEmpty = true then
    pure (Except.ok []) else _) _ t
  split_ifs with hempty
  · have hnone : pending d = [] := by rw [pending, List.isEmpty_iff.mp hempty, List.map_nil]
    refine ⟨h1.booting List.nil_prefix, fun _ => ?_⟩
    rw [h1.calls, hnone]
  · intro c _
    have h2 := h1.step (o := .remount .rw) (fun _ => nofun) nofun c
    refine ⟨h2.booting List.nil_prefix, ?_⟩
    change Prog.Safe _ _ _ (match (deviceStep t.state (.remount .rw) c).1 with | .error e => _ | .ok a => _) _ _
    cases (deviceStep t.state (.remount .rw) c).1 with
    | error e => exact ⟨h2.booting List.nil_prefix, fun hne => absurd rfl hne⟩
    | ok remounted =>
      have hms : ∀ m ∈ migrations.filter (fun m => !(recorded d).contains m.name), m.apply.Within Op.OnRoot :=
        fun m hm => within_apply m (List.mem_filter.mp hm).1
      apply Prog.Safe.bind (safe_applyAll hms rfl (List.Subset.refl _) h2)
      rintro ⟨applied, newly⟩ u ⟨hu, happlied⟩
      exact (safe_finish remounted happlied hu).post fun _ v hv => ⟨hv.1, fun _ => hv.2⟩

theorem boot_spec (choices : List Choice) (d : Device) :
    Booting d (boot choices d).2 ∧ ∀ r, (boot choices d).1 = some r → r ≠ .error (.remount .rw) →
      called (boot choices d).2.log = pending d := by
  have hstart : Booting d ⟨d, []⟩ := ⟨List.Subset.refl _, List.nil_prefix⟩
  have hall : ∀ c ∈ choices, (fun _ : Choice => True) c := fun _ _ => trivial
  obtain ⟨hbooting, hend⟩ := (safe_runPending d).exec hstart hall
  exact ⟨hbooting, fun r hr => (hend r hr).2⟩

theorem recorded_bootAll (boots : List (List Choice)) (d : Device) : recorded d ⊆ recorded (bootAll boots d) := by
  induction boots generalizing d with
  | nil => exact List.Subset.refl _
  | cons choices boots ih =>
    have hfirst := (boot_spec choices d).1.grows
    exact List.Subset.trans hfirst (ih _)

theorem mem_pending {d : Device} {name : String} :
    name ∈ pending d ↔ name ∈ migrations.map Migration.name ∧ name ∉ recorded d := by
  simp only [pending, List.mem_map, List.mem_filter, Bool.not_eq_true', ← Bool.not_eq_true, List.contains_iff_mem]
  constructor
  · rintro ⟨m, ⟨hm, hnot⟩, rfl⟩
    exact ⟨⟨m, hm, rfl⟩, hnot⟩
  · rintro ⟨⟨m, hm, rfl⟩, hnot⟩
    exact ⟨m, ⟨hm, hnot⟩, rfl⟩

end Boot

end PiBuddyCam.Migrations
