import PiBuddyCam.Migrations

/-! What the migrations do to ROOT when no call fails, and that doing it twice is doing it once. A migration is a list
of stages, each of which looks at one path and changes what stands there, or stops the migration. -/
namespace PiBuddyCam.Migrations

structure Stage where
  path : String
  change : Option Node → Option (Option Node)

def runStages : List Stage → Root → Bool × Root
  | [], r => (true, r)
  | stage :: stages, r =>
    match stage.change (r stage.path) with
    | none => (false, r)
    | some v => runStages stages (r.put stage.path v)

def Agree (stages : List Stage) : Prop :=
  ∀ f ∈ stages, ∀ g ∈ stages, f.path = g.path → ∀ v w, f.change v = some w → g.change w = some w

section Stages

theorem put_eq_self {r : Root} {path : String} {v : Option Node} (h : r path = v) : r.put path v = r := by
  rw [← h, Root.put, Function.update_eq_self]

theorem put_put (r : Root) (path : String) (v w : Option Node) : (r.put path v).put path w = r.put path w :=
  Function.update_idem _ _ _

@[simp] theorem put_self (r : Root) (path : String) (v : Option Node) : (r.put path v) path = v :=
  Function.update_self _ _ _

theorem put_of_ne (r : Root) {path p : String} (v : Option Node) (h : p ≠ path) : (r.put path v) p = r p :=
  Function.update_of_ne h _ _

variable {f : Stage} {stages : List Stage} {r : Root}

theorem runStages_of_none (h : f.change (r f.path) = none) : runStages (f :: stages) r = (false, r) := by
  rw [runStages, h]

theorem runStages_of_some {v : Option Node} (h : f.change (r f.path) = some v) :
    runStages (f :: stages) r = runStages stages (r.put f.path v) := by
  rw [runStages, h]

theorem runStages_append (stages more : List Stage) (r : Root) :
    runStages (stages ++ more) r =
      if (runStages stages r).1 then runStages more (runStages stages r).2 else (false, (runStages stages r).2) := by
  induction stages generalizing r with
  | nil => rfl
  | cons f stages ih =>
    cases h : f.change (r f.path) with
    | none =>
      rw [List.cons_append, runStages_of_none h, runStages_of_none h]
      rfl
    | some v => rw [List.cons_append, runStages_of_some h, runStages_of_some h, ih]

/-- What all stages at a path keep of what stands there. -/
theorem runStages_inv {path : String} {P : Option Node → Prop}
    (hkeep : ∀ g ∈ stages, g.path = path → ∀ v w, P v → g.change v = some w → P w) (h : P (r path)) :
    P ((runStages stages r).2 path) := by
  induction stages generalizing r with
  | nil => exact h
  | cons g stages ih =>
    obtain ⟨hg, hstages⟩ := List.forall_mem_cons.mp hkeep
    cases hchange : g.change (r g.path) with
    | none =>
      rw [runStages_of_none hchange]
      exact h
    | some w =>
      rw [runStages_of_some hchange]
      apply ih hstages
      by_cases hpath : g.path = path
      · rw [← hpath, put_self]
        exact hg hpath _ _ (hpath ▸ h) hchange
      · rw [put_of_ne _ _ (Ne.symm hpath)]
        exact h

/-- Stages that agree: a second run finds everything in order, up to where the first one stopped. -/
theorem runStages_runStages (h : Agree stages) (r : Root) :
    runStages stages (runStages stages r).2 = runStages stages r := by
  induction stages generalizing r with
  | nil => rfl
  | cons f stages ih =>
    have htail : Agree stages := fun a ha b hb => h a (List.mem_cons_of_mem _ ha) b (List.mem_cons_of_mem _ hb)
    cases hchange : f.change (r f.path) with
    | none => rw [runStages_of_none hchange, runStages_of_none hchange]
    | some v =>
      have hself : f.change v = some v := h f List.mem_cons_self f List.mem_cons_self rfl _ _ hchange
      have hkept : (runStages stages (r.put f.path v)).2 f.path = v := by
        apply runStages_inv (P := (· = v)) _ (put_self _ _ _)
        rintro g hg hpath _ w rfl hw
        exact Option.some.inj (hw.symm.trans (h f List.mem_cons_self g (List.mem_cons_of_mem _ hg) hpath.symm _ _ hself))
      have hagain : f.change ((runStages stages (r.put f.path v)).2 f.path) = some v := by rw [hkept, hself]
      rw [runStages_of_some hchange, runStages_of_some hagain, put_eq_self hkept, ih htail]

end Stages

/-! Runs in which no call on ROOT fails. -/

def Reliable (c : Choice) : Prop := c.fails = false

def Ensures {α : Type} (p : Run α) (Q : α → Device → Prop) (d : Device) : Prop :=
  p.Safe device Reliable (fun _ => True) Q d

def Device.withRoot (d : Device) (r : Root) : Device := { d with root := r }

/-- From `d`, a program does to ROOT what the stages do, and raises where they stop. -/
def DoesAt {α : Type} (p : Run (Except String α)) (stages : List Stage) (d : Device) : Prop :=
  Ensures p (fun r e => e = d.withRoot (runStages stages d.root).2 ∧ r.toBool = (runStages stages d.root).1) d

def Does {α : Type} (p : Run (Except String α)) (stages : List Stage) : Prop := ∀ d, DoesAt p stages d

section Does

variable {α β : Type}

theorem does_pure (a : α) : Does (pure (.ok a)) [] := fun _ => ⟨rfl, rfl⟩

theorem DoesAt.congr {p : Run (Except String α)} {stages stages' : List Stage} {d : Device} (h : DoesAt p stages d)
    (hsame : runStages stages d.root = runStages stages' d.root) : DoesAt p stages' d := by
  rw [DoesAt, ← hsame]
  exact h

theorem DoesAt.andThen {p : Run (Except String α)} {f : α → Run (Except String β)} {stages more : List Stage} {d : Device}
    (hp : DoesAt p stages d) (hf : ∀ a, DoesAt (f a) more (d.withRoot (runStages stages d.root).2)) :
    DoesAt (p.andThen f) (stages ++ more) d := by
  apply Prog.Safe.bind hp
  rintro (e | a) u ⟨rfl, hstop⟩
  · refine ⟨?_, ?_⟩
    · rw [runStages_append, ← hstop]
      rfl
    · rw [runStages_append, ← hstop]
      rfl
  · apply (hf a).post
    rintro r u ⟨rfl, hr⟩
    rw [runStages_append, ← hstop]
    exact ⟨rfl, hr⟩

theorem Does.andThen {p : Run (Except String α)} {f : α → Run (Except String β)} {stages more : List Stage}
    (hp : Does p stages) (hf : ∀ a, Does (f a) more) : Does (p.andThen f) (stages ++ more) :=
  fun d => (hp d).andThen fun a => hf a _

end Does

/-! The stages of the migrations. -/

@[simp] theorem found_setLeaf (v : Option Node) (l : Leaf) : found (setLeaf v l) = some l := by
  unfold setLeaf
  split <;> rfl

@[simp] theorem setLeaf_setLeaf (v : Option Node) (l l' : Leaf) : setLeaf (setLeaf v l) l' = setLeaf v l' := by
  rcases v with _ | ⟨_ | _⟩ <;> rfl

def mkdirChange (v : Option Node) : Option (Option Node) :=
  match found v, v with
  | some .dir, v => some v
  | _, none => some (some (.leaf .dir))
  | _, some _ => none

def saveChange (text : String) (v : Option Node) : Option (Option Node) :=
  match found v with
  | some .dir => none
  | some .device => some v
  | _ => some (setLeaf v (.file (.text text)))

def includeChange (v : Option Node) : Option (Option Node) :=
  match found v with
  | some (.file (.text t)) =>
    if PyText.contains includeLine (readText t) then some v else some (setLeaf v (.file (.text (t ++ includeText))))
  | some (.file (.raw _)) => none
  | _ => saveChange mainText v

def editChange (edit : String → Edit) (v : Option Node) : Option (Option Node) :=
  match found v with
  | some (.file (.text t)) =>
    match edit (readText t) with
    | .changed content => some (setLeaf v (.file (.text content)))
    | _ => some v
  | some (.file (.raw _)) => none
  | _ => some v

section Calls

variable {c : Choice} {path : String}

def oneStage (stage : Stage) (c : Choice) (r : Root) : Done × Root :=
  match stage.change (r stage.path) with
  | none => (.error c.error, r)
  | some v => (.ok (), r.put stage.path v)

theorem stage_spec {stage : Stage} {d : Device} {out : Done × Root} (hout : out = oneStage stage c d.root) :
    (d.onRoot out).2 = d.withRoot (runStages [stage] d.root).2 ∧ (d.onRoot out).1.toBool = (runStages [stage] d.root).1 := by
  rw [hout, oneStage]
  cases h : stage.change (d.root stage.path) with
  | none =>
    rw [runStages_of_none h]
    exact ⟨rfl, rfl⟩
  | some v =>
    rw [runStages_of_some h]
    exact ⟨rfl, rfl⟩

theorem attempt_eq (r r' : Root) (hc : Reliable c) : r.attempt c r' = (.ok (), r') := by
  rw [Root.attempt, hc]
  rfl

theorem mkdir_eq (r : Root) (hc : Reliable c) : r.mkdir c path = oneStage ⟨path, mkdirChange⟩ c r := by
  simp only [Root.mkdir, oneStage, mkdirChange]
  cases hv : r path with
  | none => exact attempt_eq _ _ hc
  | some n =>
    cases hf : found (some n) with
    | none => rfl
    | some l =>
      cases l with
      | dir => exact congrArg (Prod.mk _) (put_eq_self hv).symm
      | file _ => rfl
      | device => rfl

theorem does_mkdir (path : String) : Does (mkdir path) [⟨path, mkdirChange⟩] :=
  fun d _ hc => ⟨trivial, stage_spec (mkdir_eq d.root hc)⟩

theorem does_makedirs (paths : List String) : Does (makedirs paths) (paths.map (⟨·, mkdirChange⟩)) := by
  induction paths with
  | nil => exact does_pure ()
  | cons path paths ih => exact (does_mkdir path).andThen fun _ => ih

def openChange (keep : Bool) (v : Option Node) : Option (Option Node) :=
  match found v with
  | some .dir => none
  | some .device => some v
  | some (.file content) => some (setLeaf v (.file (if keep then content else .text "")))
  | none => some (setLeaf v (.file (.text "")))

theorem openFor_eq (keep : Bool) (r : Root) (hc : Reliable c) :
    r.openFor c path keep = oneStage ⟨path, openChange keep⟩ c r := by
  simp only [Root.openFor, oneStage, openChange]
  cases hf : found (r path) with
  | none => exact attempt_eq _ _ hc
  | some l =>
    cases l with
    | dir => rfl
    | file _ => exact attempt_eq _ _ hc
    | device => exact (attempt_eq _ _ hc).trans (congrArg (Prod.mk _) (put_eq_self rfl).symm)

theorem does_openWrite (path : String) : Does (openWrite path) [⟨path, openChange false⟩] :=
  fun d _ hc => ⟨trivial, stage_spec (openFor_eq false d.root hc)⟩

theorem does_openAppend (path : String) : Does (openAppend path) [⟨path, openChange true⟩] :=
  fun d _ hc => ⟨trivial, stage_spec (openFor_eq true d.root hc)⟩

def writeChange (text : String) (v : Option Node) : Option (Option Node) :=
  match found v with
  | some (.file content) => some (setLeaf v (.file (content.append text)))
  | _ => some v

theorem write_eq (text : String) (r : Root) (hc : Reliable c) :
    r.write c path text = oneStage ⟨path, writeChange text⟩ c r := by
  have hsame : r.attempt c r = (.ok (), r.put path (r path)) :=
    (attempt_eq _ _ hc).trans (congrArg (Prod.mk _) (put_eq_self rfl).symm)
  simp only [Root.write, oneStage, writeChange]
  cases hf : found (r path) with
  | none => exact hsame
  | some l =>
    cases l with
    | dir => exact hsame
    | file content => exact if_neg (Bool.eq_false_iff.mp hc)
    | device => exact hsame

theorem does_write (path text : String) : Does (write path text) [⟨path, writeChange text⟩] :=
  fun d _ hc => ⟨trivial, stage_spec (write_eq text d.root hc)⟩

theorem runStages_fuse {f g h : Option Node → Option (Option Node)} (hg : ∀ v, (g v).isSome = true)
    (hfuse : ∀ v, (f v).bind g = h v) (r : Root) : runStages [⟨path, f⟩, ⟨path, g⟩] r = runStages [⟨path, h⟩] r := by
  cases hf : f (r path) with
  | none =>
    have hnone : h (r path) = none := by rw [← hfuse, hf, Option.bind_none]
    rw [runStages_of_none hf, runStages_of_none hnone]
  | some v =>
    obtain ⟨w, hw⟩ := Option.isSome_iff_exists.mp (hg v)
    have hsome : h (r path) = some w := by rw [← hfuse, hf, Option.bind_some, hw]
    have hput : g ((r.put path v) path) = some w := by rw [put_self, hw]
    rw [runStages_of_some hf, runStages_of_some hput, runStages_of_some hsome, put_put]

theorem isSome_writeChange (text : String) (v : Option Node) : (writeChange text v).isSome = true := by
  unfold writeChange
  split <;> rfl

theorem does_save (path text : String) : Does (save path text) [⟨path, saveChange text⟩] := by
  intro d
  apply ((does_openWrite path).andThen fun _ => does_write path text) d |>.congr
  apply runStages_fuse (isSome_writeChange text)
  intro v
  unfold openChange saveChange
  cases hf : found v with
  | none => simp only [Option.bind_some, writeChange, found_setLeaf, setLeaf_setLeaf, Content.append, String.empty_append]
  | some l =>
    cases l with
    | dir => rfl
    | file content =>
      simp only [Bool.false_eq_true, if_false, Option.bind_some, writeChange, found_setLeaf, setLeaf_setLeaf,
        Content.append, String.empty_append]
    | device => simp only [Option.bind_some, writeChange, hf]

theorem runStages_congr {f g : Option Node → Option (Option Node)} {r : Root} (h : f (r path) = g (r path)) :
    runStages [⟨path, f⟩] r = runStages [⟨path, g⟩] r := by
  simp only [runStages, h]

theorem runStages_idle {f : Option Node → Option (Option Node)} {r : Root} (h : f (r path) = some (r path)) :
    runStages [⟨path, f⟩] r = (true, r) := by
  rw [runStages_of_some h, put_eq_self rfl]
  rfl

theorem isfile_eq {r : Root} : r.isfile path = true ↔ ∃ content, found (r path) = some (.file content) := by
  unfold Root.isfile
  split
  · exact iff_of_true rfl ⟨_, ‹_›⟩
  · rename_i hnot
    exact iff_of_false Bool.false_ne_true fun ⟨content, h⟩ => hnot content h

theorem ensures_look {β : Type} {f : Root → Run β} {Q : β → Device → Prop} {d : Device} (h : Ensures (f d.root) Q d) :
    Ensures (look >>= f) Q d := fun _ _ => ⟨trivial, h⟩

def Content.decode : Content → Except String String
  | .text t => .ok (readText t)
  | .raw _ => .error "UnicodeDecodeError"

section Read

variable {α : Type} {f : String → Run (Except String α)} {Q : Except String α → Device → Prop} {d : Device}

theorem ensures_read {content : Content} (hcontent : found (d.root path) = some (.file content))
    (htext : ∀ t, content = .text t → Ensures (f (readText t)) Q d)
    (hraw : ∀ bytes, content = .raw bytes → Q (.error "UnicodeDecodeError") d) :
    Ensures ((readFile path).andThen f) Q d := by
  have hread : Ensures (readFile path) (fun r e => e = d ∧ r = content.decode) d := by
    intro c hc
    have hread : d.root.read c path = content.decode := by
      rw [Root.read, hcontent]
      cases content with
      | text t => exact if_neg (Bool.eq_false_iff.mp hc)
      | raw bytes => rfl
    exact ⟨trivial, rfl, hread⟩
  apply Prog.Safe.bind hread
  rintro r u ⟨rfl, rfl⟩
  cases content with
  | text t => exact htext t rfl
  | raw bytes => exact hraw bytes rfl

end Read

theorem does_includeShare : Does includeShare [⟨mainConf, includeChange⟩] := by
  intro d
  apply ensures_look
  split_ifs with hfile
  · obtain ⟨content, hcontent⟩ := isfile_eq.mp hfile
    apply ensures_read hcontent
    · rintro t rfl
      cases hline : PyText.contains includeLine (readText t) with
      | true =>
        have hidle : includeChange (d.root mainConf) = some (d.root mainConf) := by
          simp only [includeChange, hcontent, hline, if_true]
        rw [runStages_idle hidle]
        exact ⟨rfl, rfl⟩
      | false =>
        apply ((does_openAppend mainConf).andThen fun _ => does_write mainConf includeText) d |>.congr
        rw [List.singleton_append, runStages_fuse (isSome_writeChange includeText) fun v => rfl]
        apply runStages_congr
        simp only [openChange, hcontent, if_true, Option.bind_some, writeChange, found_setLeaf, setLeaf_setLeaf,
          Content.append, includeChange, hline, Bool.false_eq_true, if_false]
    · rintro bytes rfl
      have hnone : includeChange (d.root mainConf) = none := by simp only [includeChange, hcontent]
      rw [runStages_of_none hnone]
      exact ⟨rfl, rfl⟩
  · apply (does_save mainConf mainText d).congr
    apply runStages_congr
    unfold includeChange
    split
    · exact absurd (isfile_eq.mpr ⟨_, ‹_›⟩) hfile
    · exact absurd (isfile_eq.mpr ⟨_, ‹_›⟩) hfile
    · rfl

def Leaves {α : Type} (p : Run (Except String α)) (stages : List Stage) : Prop :=
  ∀ d, Ensures p (fun _ e => e = d.withRoot (runStages stages d.root).2) d

theorem Does.leaves {α : Type} {p : Run (Except String α)} {stages : List Stage} (h : Does p stages) :
    Leaves p stages := fun d => (h d).post fun _ _ he => he.1

theorem leaves_editFile (path : String) (edit : String → Edit) (reload : Bool) :
    Leaves (editFile path edit reload) [⟨path, editChange edit⟩] := by
  intro d
  have hidle (r : Except String Bool) (h : editChange edit (d.root path) = some (d.root path)) :
      Ensures (pure r) (fun _ e => e = d.withRoot (runStages [⟨path, editChange edit⟩] d.root).2) d := by
    rw [runStages_idle h]
    rfl
  apply ensures_look
  split
  · rename_i hfile
    obtain ⟨content, hcontent⟩ := isfile_eq.mp hfile
    apply ensures_read hcontent
    · rintro t rfl
      cases hedit : edit (readText t) with
      | done => exact hidle _ (by simp only [editChange, hcontent, hedit])
      | missing => exact hidle _ (by simp only [editChange, hcontent, hedit])
      | changed content =>
        have hsave : runStages [⟨path, saveChange content⟩] d.root = runStages [⟨path, editChange edit⟩] d.root := by
          apply runStages_congr
          simp only [saveChange, editChange, hcontent, hedit]
        apply Prog.Safe.bind ((does_save path content d).congr hsave)
        rintro (e | ⟨⟩) u ⟨rfl, _⟩
        · rfl
        · cases reload with
          | false => exact rfl
          | true =>
            -- whatever becomes of the reload, the file is written
            have hreload (u : Device) : Ensures daemonReload (fun _ e => e = u) u := fun _ _ => ⟨trivial, rfl⟩
            apply Prog.Safe.bind (hreload _)
            rintro (e | ⟨⟩) u rfl
            · exact rfl
            · exact rfl
    · rintro bytes rfl
      have hnone : editChange edit (d.root path) = none := by simp only [editChange, hcontent]
      rw [runStages_of_none hnone]
      rfl
  · rename_i hfile
    apply hidle
    unfold editChange
    split
    · exact absurd (isfile_eq.mpr ⟨_, ‹_›⟩) hfile
    · exact absurd (isfile_eq.mpr ⟨_, ‹_›⟩) hfile
    · rfl

end Calls

end PiBuddyCam.Migrations
