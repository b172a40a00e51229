import PiBuddyCam.CrashProg
import PiBuddyCam.JsonRead

/-! `save` and `load` of `app/settings_store.py`, on a volume that may lose power at any time. Renaming is atomic; what
was synced stays, and a rename that no sync of the directory has followed may be undone. -/
namespace PiBuddyCam.SettingsStore

open JsonText (Value)

/-- A file; `synced` when its bytes are on the medium. -/
structure File where
  bytes : ByteArray
  synced : Bool

/-- `state.json` and `state.json.tmp`, and what `state.json` was since the last sync of the directory. -/
structure Disk where
  path : Option File := none
  tmp : Option File := none
  earlier : List (Option File) := []

/-- What a loss of power does: which of the entries for `state.json` is there again, what is in a file that was not
synced, and what is left of `state.json.tmp`. -/
structure Loss where
  back : ℕ := 0
  spoilt : ByteArray := .empty
  tmp : Option File := none

def File.settle (l : Loss) (f : File) : File := if f.synced then f else ⟨l.spoilt, true⟩

def Disk.lose (d : Disk) (l : Loss) : Disk where
  path := ((d.earlier ++ [d.path]).getD l.back d.path).map (File.settle l)
  tmp := l.tmp
  earlier := []

theorem path_lose (d : Disk) (l : Loss) :
    ∃ p ∈ d.earlier ++ [d.path], (d.lose l).path = p.map (File.settle l) := by
  refine ⟨_, ?_, rfl⟩
  rw [List.getD_eq_getElem?_getD]
  cases hget : (d.earlier ++ [d.path])[l.back]? with
  | none => exact List.mem_append_right _ (List.mem_singleton.mpr rfl)
  | some p => exact List.mem_of_getElem? hget

inductive Op where
  | available
  | makedirs
  | openTmp
  | writeTmp (bytes : ByteArray)
  | writePart
  | fsyncTmp
  | closeTmp
  | replaceTmp
  | removeTmp
  | openDir
  | fsyncDir
  | closeDir
  | read
  | quarantine

inductive ReadError where
  | missing
  | other
  deriving DecidableEq

abbrev Res : Op → Type
  | .read => Except ReadError ByteArray
  | _ => Bool

structure Choice where
  mounted : Bool := true
  fails : Bool := false
  part : ByteArray := .empty
  dirFails : Bool := false
  closeFails : Bool := false
  readFails : Bool := false

def Disk.step (d : Disk) : (o : Op) → Choice → Res o × Disk
  | .available, c => (c.mounted, d)
  | .makedirs, c => (!c.fails, d)
  | .openTmp, c => if c.fails then (false, d) else (true, { d with tmp := some ⟨.empty, false⟩ })
  | .writeTmp bytes, c =>
    if c.fails then (false, { d with tmp := some ⟨c.part, false⟩ })
    else (true, { d with tmp := some ⟨bytes, false⟩ })
  | .writePart, c => (!c.fails, { d with tmp := some ⟨c.part, false⟩ })
  | .fsyncTmp, c =>
    if c.fails then (false, d) else (true, { d with tmp := d.tmp.map fun f => { f with synced := true } })
  | .closeTmp, c => (!c.fails, d)
  | .replaceTmp, c =>
    if c.fails || d.tmp.isNone then (false, d)
    else (true, { path := d.tmp, tmp := none, earlier := d.earlier ++ [d.path] })
  | .removeTmp, c => if c.fails || d.tmp.isNone then (false, d) else (true, { d with tmp := none })
  | .openDir, c => (!c.dirFails, d)
  | .fsyncDir, c => if c.dirFails then (false, d) else (true, { d with earlier := [] })
  | .closeDir, c => (!c.closeFails, d)
  | .read, c =>
    match d.path with
    | none => (.error .missing, d)
    | some f => (if c.readFails then .error .other else .ok f.bytes, d)
  | .quarantine, c =>
    if c.fails || d.path.isNone then (false, d)
    else (true, { d with path := none, earlier := d.earlier ++ [d.path] })

def machine : Machine Op Res Disk Choice := ⟨Disk.step⟩

abbrev Run := Prog Op Res

def sys (o : Op) : Run (Res o) := Prog.op o

/-- A dict with string keys whose values have a text. -/
structure Document where
  fields : OrderedDict String Value
  proper : JsonText.ProperEntries fields.entries

def Document.payload (data : Document) : Value := .dict (data.fields.set "version" (.int 1)).entries

/-- How a part of `save` ends. -/
inductive Ending where
  | done
  | osError
  | valueError
  deriving DecidableEq

def bytesOf (text : List Char) : ByteArray := (String.ofList (text ++ ['\n'])).toUTF8

def flushTmp (wrote : Bool) : Run Bool := if wrote then sys .fsyncTmp else pure false

def fillTmp (text : Option (List Char)) : Run Ending := do
  let opened : Bool ← sys .openTmp
  if !opened then return .osError
  match text with
  | none => do
    let wrote : Bool ← sys .writePart
    let closed : Bool ← sys .closeTmp
    return if wrote && closed then .valueError else .osError
  | some text => do
    let wrote : Bool ← sys (.writeTmp (bytesOf text))
    let synced ← flushTmp wrote
    let closed : Bool ← sys .closeTmp
    return if synced && closed then .done else .osError

def fsyncDir : Run Bool := do
  let opened : Bool ← sys .openDir
  if !opened then return true
  let _synced : Bool ← sys .fsyncDir
  sys .closeDir

def store (data : Document) : Run Ending := do
  let made : Bool ← sys .makedirs
  if !made then return .osError
  match ← fillTmp (JsonText.dumpAt 0 data.payload) with
  | .osError => return .osError
  | .valueError => return .valueError
  | .done => do
    let replaced : Bool ← sys .replaceTmp
    if !replaced then return .osError
    let quiet ← fsyncDir
    return if quiet then .done else .osError

def save (data : Document) : Run (Option Bool) := do
  let mounted : Bool ← sys .available
  if !mounted then return some false
  match ← store data with
  | .done => return some true
  | .valueError => return none
  | .osError => do
    let _removed : Bool ← sys .removeTmp
    return some false

def decode (bytes : ByteArray) : Option Value := (String.fromUTF8? bytes).bind fun text => JsonText.loads text.toList

def afterRead : Except ReadError ByteArray → Run Value
  | .error .missing => return .dict []
  | .error .other => do
    let _moved : Bool ← sys .quarantine
    return .dict []
  | .ok bytes =>
    match decode bytes with
    | some (.dict entries) => return .dict entries
    | _ => do
      let _moved : Bool ← sys .quarantine
      return .dict []

def load : Run Value := do
  let r ← sys .read
  afterRead r

abbrev Journal := Traced Op Res Disk

abbrev journal : Machine Op Res Journal Choice := machine.traced

abbrev Entry := (o : Op) × Res o

def renamed (log : List Entry) : Bool :=
  log.any fun
    | ⟨.replaceTmp, ok⟩ => ok
    | _ => false

/-- The directory is synced when that is asked for, no descriptor of it fails to close, and what is there can be read. -/
structure Choice.Steady (c : Choice) : Prop where
  dir : c.dirFails = false
  close : c.closeFails = false
  read : c.readFails = false

section Saving

variable {d : Disk} {t : Journal} {data : Document}

def Holds (data : Document) (p : Option File) : Prop :=
  ∃ text, JsonText.dumpAt 0 data.payload = some text ∧ p = some ⟨bytesOf text, true⟩

structure Before (d : Disk) (t : Journal) : Prop where
  path : t.state.path = d.path
  earlier : t.state.earlier = d.earlier
  log : renamed t.log = false

structure After (data : Document) (d : Disk) (t : Journal) : Prop where
  holds : Holds data t.state.path
  earlier : t.state.earlier = d.earlier ++ [d.path] ∨ t.state.earlier = []
  log : renamed t.log = true

def Op.Aside (o : Op) : Prop := o ≠ .replaceTmp ∧ o ≠ .fsyncDir ∧ o ≠ .quarantine

variable {o : Op}

theorem aside_step (ho : o.Aside) (d : Disk) (c : Choice) :
    (d.step o c).2.path = d.path ∧ (d.step o c).2.earlier = d.earlier := by
  cases o with
  | replaceTmp => exact absurd rfl ho.1
  | fsyncDir => exact absurd rfl ho.2.1
  | quarantine => exact absurd rfl ho.2.2
  | read =>
    unfold Disk.step
    split <;> exact ⟨rfl, rfl⟩
  | openTmp | writeTmp | fsyncTmp | removeTmp =>
    unfold Disk.step
    dsimp only
    split_ifs <;> exact ⟨rfl, rfl⟩
  | available | makedirs | writePart | closeTmp | openDir | closeDir => exact ⟨rfl, rfl⟩

theorem renamed_step (ho : o ≠ .replaceTmp) (t : Journal) (c : Choice) :
    renamed (journal.step t o c).2.log = renamed t.log := by
  have hone : renamed [(⟨o, (t.state.step o c).1⟩ : Entry)] = false := by
    cases o with
    | replaceTmp => exact absurd rfl ho
    | _ => rfl
  calc renamed (journal.step t o c).2.log
    _ = renamed (t.log ++ [⟨o, (t.state.step o c).1⟩]) := rfl
    _ = (renamed t.log || renamed [⟨o, (t.state.step o c).1⟩]) := List.any_append
    _ = renamed t.log := by rw [hone, Bool.or_false]

theorem before_step (ht : Before d t) (ho : o.Aside) (c : Choice) : Before d (journal.step t o c).2 := by
  have hstep := aside_step ho t.state c
  exact ⟨hstep.1.trans ht.path, hstep.2.trans ht.earlier, (renamed_step ho.1 t c).trans ht.log⟩

theorem after_step (ht : After data d t) (ho : o.Aside) (c : Choice) : After data d (journal.step t o c).2 := by
  obtain ⟨hpath, hearlier⟩ : (journal.step t o c).2.state.path = t.state.path ∧
      (journal.step t o c).2.state.earlier = t.state.earlier := aside_step ho t.state c
  refine ⟨?_, ?_, (renamed_step ho.1 t c).trans ht.log⟩
  · rw [hpath]
    exact ht.holds
  · rw [hearlier]
    exact ht.earlier

variable {A : Choice → Prop}

theorem safe_aside (ht : Before d t) (ho : o.Aside) {P : Res o → Disk → Prop}
    (hP : ∀ c, P (t.state.step o c).1 (t.state.step o c).2) :
    (sys o).Safe journal A (Before d) (fun r u => Before d u ∧ P r u.state) t :=
  fun c _ => ⟨before_step ht ho c, before_step ht ho c, hP c⟩

theorem keeps_aside (ht : Before d t) (ho : o.Aside) : (sys o).Keeps journal A (Before d) t :=
  fun c _ => ⟨before_step ht ho c, before_step ht ho c⟩

/-- The `with` block leaves `state.json` alone, and when it ends well the whole text is on the medium. -/
theorem safe_fillTmp (ht : Before d t) (text : Option (List Char)) :
    (fillTmp text).Safe journal A (Before d) (fun r u => Before d u ∧
      (r = .done → ∃ cs, text = some cs ∧ u.state.tmp = some ⟨bytesOf cs, true⟩)) t := by
  refine .bind (keeps_aside ht ⟨nofun, nofun, nofun⟩) fun opened u hu => ?_
  split_ifs
  · exact ⟨hu, nofun⟩
  cases text with
  | none =>
    refine .bind (keeps_aside hu ⟨nofun, nofun, nofun⟩) fun wrote u hu => ?_
    refine .bind (keeps_aside hu ⟨nofun, nofun, nofun⟩) fun closed u hu => ?_
    refine ⟨hu, fun hdone => ?_⟩
    split_ifs at hdone
  | some cs =>
    refine .bind (safe_aside hu (o := .writeTmp (bytesOf cs))
      (P := fun r d => r = true → d.tmp = some ⟨bytesOf cs, false⟩) ⟨nofun, nofun, nofun⟩ fun c => ?_) ?_
    · dsimp only [Disk.step]
      split_ifs
      · exact nofun
      · exact fun _ => rfl
    rintro wrote u ⟨hu, hwrote⟩
    refine .bind (p := flushTmp wrote)
      (Q := fun r v => Before d v ∧ (r = true → v.state.tmp = some ⟨bytesOf cs, true⟩)) ?_ ?_
    · unfold flushTmp
      split_ifs with hw
      · refine safe_aside hu (o := .fsyncTmp) (P := fun r d => r = true → d.tmp = some ⟨bytesOf cs, true⟩)
          ⟨nofun, nofun, nofun⟩ fun c => ?_
        dsimp only [Disk.step]
        split_ifs
        · exact nofun
        · intro _
          rw [hwrote hw, Option.map_some]
      · exact ⟨hu, nofun⟩
    rintro synced u ⟨hu, hsynced⟩
    refine .bind (safe_aside hu (o := .closeTmp)
      (P := fun _ d => synced = true → d.tmp = some ⟨bytesOf cs, true⟩) ⟨nofun, nofun, nofun⟩ fun _ => hsynced) ?_
    rintro closed u ⟨hu, htmp⟩
    refine ⟨hu, fun hdone => ?_⟩
    split_ifs at hdone with hboth
    exact ⟨cs, rfl, htmp (Bool.and_eq_true_iff.mp hboth).1⟩

def Saving (data : Document) (d : Disk) (t : Journal) : Prop := Before d t ∨ After data d t

/-- How `save` may end: when it is done, the new file is in its place for good; otherwise nothing was renamed. -/
def Ends (data : Document) (d : Disk) (done : Bool) (t : Journal) : Prop :=
  if done then Holds data t.state.path ∧ t.state.earlier = [] else Before d t

theorem safe_replaceTmp (ht : Before d t) {text : List Char} (htext : JsonText.dumpAt 0 data.payload = some text)
    (htmp : t.state.tmp = some ⟨bytesOf text, true⟩) :
    (sys .replaceTmp).Safe journal A (Saving data d)
      (fun (r : Bool) u => if r then After data d u else Before d u) t := by
  intro c _
  by_cases hfails : c.fails = true
  · have hstep : journal.step t .replaceTmp c = (false, ⟨t.state, t.log ++ [⟨.replaceTmp, false⟩]⟩) := by
      simp [journal, Machine.traced, machine, Disk.step, hfails]
    have hbefore : Before d ⟨t.state, t.log ++ [⟨.replaceTmp, false⟩]⟩ := by
      refine ⟨ht.path, ht.earlier, ?_⟩
      rw [renamed, List.any_append]
      exact Bool.or_eq_false_iff.mpr ⟨ht.log, rfl⟩
    rw [hstep]
    exact ⟨Or.inl hbefore, hbefore⟩
  · have hstep : journal.step t .replaceTmp c = (true,
        ⟨⟨some ⟨bytesOf text, true⟩, none, d.earlier ++ [d.path]⟩, t.log ++ [⟨.replaceTmp, true⟩]⟩) := by
      simp [journal, Machine.traced, machine, Disk.step, hfails, htmp, ht.path, ht.earlier]
    have hafter : After data d
        ⟨⟨some ⟨bytesOf text, true⟩, none, d.earlier ++ [d.path]⟩, t.log ++ [⟨.replaceTmp, true⟩]⟩ := by
      refine ⟨⟨text, htext, rfl⟩, Or.inl rfl, ?_⟩
      rw [renamed, List.any_append]
      exact Bool.or_eq_true_iff.mpr (Or.inr rfl)
    rw [hstep]
    exact ⟨Or.inr hafter, hafter⟩

theorem safe_fsyncDir (ht : After data d t) :
    fsyncDir.Safe journal Choice.Steady (Saving data d)
      (fun r u => r = true ∧ Holds data u.state.path ∧ u.state.earlier = []) t := by
  refine (Prog.safe_op_bind _ _).mpr fun c hc => ⟨Or.inr (after_step ht (o := .openDir) ⟨by simp, by simp, by simp⟩ c), ?_⟩
  have hopened : (journal.step t .openDir c).1 = true := by
    simp [journal, Machine.traced, machine, Disk.step, hc.dir]
  have hu := after_step ht (o := .openDir) ⟨by simp, by simp, by simp⟩ c
  generalize journal.step t .openDir c = out at hopened hu ⊢
  obtain ⟨r, u⟩ := out
  obtain rfl : r = true := hopened
  refine (Prog.safe_op_bind _ _).mpr fun c hc => ?_
  have hstep : journal.step u .fsyncDir c =
      (true, ⟨{ u.state with earlier := [] }, u.log ++ [⟨.fsyncDir, true⟩]⟩) := by
    simp [journal, Machine.traced, machine, Disk.step, hc.dir]
  have hafter : After data d ⟨{ u.state with earlier := [] }, u.log ++ [⟨.fsyncDir, true⟩]⟩ := by
    refine ⟨hu.holds, Or.inr rfl, ?_⟩
    have hlog := renamed_step (o := .fsyncDir) (by simp) u c
    rw [hstep] at hlog
    exact hlog.trans hu.log
  rw [hstep]
  refine ⟨Or.inr hafter, fun c hc => ⟨Or.inr (after_step hafter (o := .closeDir) ⟨by simp, by simp, by simp⟩ c), ?_⟩⟩
  have hclosed : (journal.step ⟨{ u.state with earlier := [] }, u.log ++ [⟨.fsyncDir, true⟩]⟩ .closeDir c).1 = true := by
    simp [journal, Machine.traced, machine, Disk.step, hc.close]
  exact ⟨hclosed, hu.holds, rfl⟩

theorem safe_store (ht : Before d t) :
    (store data).Safe journal Choice.Steady (Saving data d) (fun r u => Ends data d (r = .done) u) t := by
  have hleft {u : Journal} (hu : Before d u) {r : Ending} (hr : r ≠ .done) : Ends data d (r = .done) u := by
    rw [Ends, if_neg (by simpa using hr)]
    exact hu
  refine .bind ((keeps_aside ht (o := .makedirs) ⟨nofun, nofun, nofun⟩).mono (fun _ => Or.inl) fun _ _ h => h) ?_
  intro made u hu
  split_ifs
  · exact hleft hu nofun
  refine .bind ((safe_fillTmp hu _).mono (fun _ => Or.inl) fun _ _ h => h) ?_
  rintro ending u ⟨hu, htmp⟩
  cases ending with
  | osError => exact hleft hu nofun
  | valueError => exact hleft hu nofun
  | done =>
    obtain ⟨text, htext, htmp⟩ := htmp rfl
    refine .bind (safe_replaceTmp hu htext htmp) fun replaced u hu => ?_
    cases replaced with
    | false => exact hleft hu nofun
    | true =>
      refine .bind (safe_fsyncDir hu) ?_
      rintro _ u ⟨rfl, hholds, hearlier⟩
      exact ⟨hholds, hearlier⟩

theorem safe_save (ht : Before d t) :
    (save data).Safe journal Choice.Steady (Saving data d) (fun r u => Ends data d (r = some true) u) t := by
  refine .bind ((keeps_aside ht (o := .available) ⟨nofun, nofun, nofun⟩).mono (fun _ => Or.inl) fun _ _ h => h) ?_
  intro mounted u hu
  split_ifs
  · exact hu
  refine .bind (safe_store hu) fun ending u hu => ?_
  cases ending with
  | done => exact hu
  | valueError => exact hu
  | osError =>
    exact .bind ((keeps_aside hu (o := .removeTmp) ⟨nofun, nofun, nofun⟩).mono (fun _ => Or.inl) fun _ _ h => h)
      fun _ _ hv => hv

end Saving

section Loading

variable {d : Disk} {data : Document}

theorem payload_proper (data : Document) : data.payload.Proper := by
  refine ⟨OrderedDict.nodup _, JsonText.properEntries_iff.mpr fun e he => ?_⟩
  rcases OrderedDict.mem_entries_set he with he | rfl
  · exact JsonText.properEntries_iff.mp data.proper e he
  · trivial

theorem decode_bytesOf {text : List Char} (h : JsonText.dumpAt 0 data.payload = some text) :
    decode (bytesOf text) = some data.payload.sorted := by
  have hutf : String.fromUTF8? (bytesOf text) = some (String.ofList (text ++ ['\n'])) :=
    dif_pos (String.ofList (text ++ ['\n'])).isValidUTF8
  rw [decode, hutf, Option.bind_some, String.toList_ofList, JsonText.loads_dumpAt (payload_proper data) h]

theorem safe_load {t : Journal} (ht : Holds data t.state.path) :
    load.Safe journal Choice.Steady (fun u => u.state = t.state)
      (fun r u => r = data.payload.sorted ∧ u.state = t.state) t := by
  obtain ⟨text, htext, hpath⟩ := ht
  refine (Prog.safe_op_bind _ _).mpr fun c hc => ?_
  have hstep : journal.step t .read c = (.ok (bytesOf text), ⟨t.state, t.log ++ [⟨.read, .ok (bytesOf text)⟩]⟩) := by
    simp [journal, Machine.traced, machine, Disk.step, hpath, hc.read]
  rw [hstep]
  refine ⟨rfl, ?_⟩
  dsimp only [afterRead]
  rw [decode_bytesOf htext]
  exact ⟨rfl, rfl⟩

end Loading

section Runs

/-- The documents that may be there: that of the last save that returned `True`, and those of later saves that were cut
after their rename. -/
def note (data : Document) (docs : Option (List Document)) : Option (Option Bool) × Journal → Option (List Document)
  | (some (some true), _) => some [data]
  | (some _, _) => docs
  | (none, t) => if renamed t.log then docs.map (· ++ [data]) else docs

def settle {α : Type} (l : Loss) : Option α × Journal → Disk
  | (some _, t) => t.state
  | (none, t) => t.state.lose l

def saving (data : Document) (cs : List Choice) (d : Disk) : Option (Option Bool) × Journal :=
  (save data).exec journal cs ⟨d, []⟩

def loading (cs : List Choice) (d : Disk) : Option Value × Journal := load.exec journal cs ⟨d, []⟩

/-- The disks that calls and losses of power can lead to, with the documents that may be there. -/
inductive Reach (d₀ : Disk) : Option (List Document) → Disk → Prop
  | start : Reach d₀ none d₀
  | save {docs : Option (List Document)} {d : Disk} (data : Document) (cs : List Choice) (l : Loss) :
      Reach d₀ docs d → (∀ c ∈ cs, c.Steady) → Reach d₀ (note data docs (saving data cs d)) (settle l (saving data cs d))
  | load {docs : Option (List Document)} {d : Disk} (cs : List Choice) (l : Loss) :
      Reach d₀ docs d → (∀ c ∈ cs, c.Steady) → Reach d₀ docs (settle l (loading cs d))
  | loss {docs : Option (List Document)} {d : Disk} (l : Loss) : Reach d₀ docs d → Reach d₀ docs (d.lose l)

def Kept (docs : Option (List Document)) (d : Disk) : Prop :=
  ∀ ds, docs = some ds → ∀ p ∈ d.earlier ++ [d.path], ∃ data ∈ ds, Holds data p

variable {d₀ d : Disk} {docs : Option (List Document)} {data : Document}

theorem Kept.path {ds : List Document} (h : Kept (some ds) d) : ∃ data ∈ ds, Holds data d.path :=
  h ds rfl d.path (List.mem_append_right _ (List.mem_singleton.mpr rfl))

theorem kept_lose (h : Kept docs d) (l : Loss) : Kept docs (d.lose l) := by
  intro ds hds p hp
  obtain rfl : p = (d.lose l).path := List.mem_singleton.mp hp
  obtain ⟨q, hmem, hpath⟩ := path_lose d l
  obtain ⟨data, hdata, text, htext, hq⟩ := h ds hds q hmem
  refine ⟨data, hdata, text, htext, ?_⟩
  rw [hpath, hq]
  rfl

theorem before_start (d : Disk) : Before d ⟨d, []⟩ := ⟨rfl, rfl, rfl⟩

variable {cs : List Choice}

theorem saving_spec (data : Document) (hcs : ∀ c ∈ cs, c.Steady) (d : Disk) :
    Saving data d (saving data cs d).2 ∧
      ∀ r, (saving data cs d).1 = some r → Ends data d (r = some true) (saving data cs d).2 :=
  (safe_save (before_start d)).exec (Or.inl (before_start d)) hcs

theorem kept_save (h : Kept docs d) (data : Document) (hcs : ∀ c ∈ cs, c.Steady) (l : Loss) :
    Kept (note data docs (saving data cs d)) (settle l (saving data cs d)) := by
  obtain ⟨hsaving, hends⟩ := saving_spec data hcs d
  have hbefore {t : Journal} (ht : Before d t) : Kept docs t.state := by
    rw [Kept, ht.path, ht.earlier]
    exact h
  generalize saving data cs d = out at hsaving hends ⊢
  obtain ⟨r, t⟩ := out
  cases r with
  | none =>
    apply kept_lose
    rcases hsaving with ht | ht
    · rw [note, ht.log, if_neg Bool.false_ne_true]
      exact hbefore ht
    · rw [note, ht.log, if_pos rfl]
      intro ds hds p hp
      obtain ⟨before, hdocs, rfl⟩ := Option.map_eq_some_iff.mp hds
      -- the entry from before, or the new one
      have hold (hp : p ∈ d.earlier ++ [d.path]) : ∃ data' ∈ before ++ [data], Holds data' p := by
        obtain ⟨data', hmem, hholds⟩ := h before hdocs p hp
        exact ⟨data', List.mem_append_left _ hmem, hholds⟩
      rcases List.mem_append.mp hp with hp | hp
      · rcases ht.earlier with hearlier | hearlier
        · rw [hearlier] at hp
          exact hold hp
        · rw [hearlier] at hp
          cases hp
      · rw [List.mem_singleton.mp hp]
        exact ⟨data, List.mem_append_right _ (List.mem_singleton.mpr rfl), ht.holds⟩
  | some r =>
    have hend := hends r rfl
    by_cases hr : r = some true
    · subst hr
      obtain ⟨hholds, hearlier⟩ : Holds data t.state.path ∧ t.state.earlier = [] := hend
      intro ds hds p hp
      rw [← Option.some.inj hds]
      rw [settle, hearlier, List.nil_append, List.mem_singleton] at hp
      rw [hp]
      exact ⟨data, List.mem_singleton.mpr rfl, hholds⟩
    · rw [Ends, if_neg (by simpa using hr)] at hend
      have hnote : note data docs (some r, t) = docs := by
        unfold note
        split
        · rename_i heq
          cases heq
          exact absurd rfl hr
        · rfl
        · rename_i heq
          cases heq
      rw [hnote]
      exact hbefore hend

theorem kept_load (h : Kept docs d) (hcs : ∀ c ∈ cs, c.Steady) (l : Loss) :
    Kept docs (settle l (loading cs d)) := by
  cases docs with
  | none => exact nofun
  | some ds =>
    obtain ⟨data, -, hholds⟩ := h.path
    have hsafe : load.Safe journal Choice.Steady _ _ ⟨d, []⟩ := safe_load hholds
    have hstate : (loading cs d).2.state = d := (hsafe.exec rfl hcs).1
    generalize loading cs d = out at hstate ⊢
    obtain ⟨r, t⟩ := out
    obtain rfl : t.state = d := hstate
    cases r with
    | none => exact kept_lose h l
    | some v => exact h

theorem kept_of_reach (h : Reach d₀ docs d) : Kept docs d := by
  induction h with
  | start => exact nofun
  | save data cs l _ hcs ih => exact kept_save ih data hcs l
  | load cs l _ hcs ih => exact kept_load ih hcs l
  | loss l _ ih => exact kept_lose ih l

theorem load_congr {d d' : Disk} (h : d.path = d'.path) (f : ℕ → Choice) :
    (load.run machine f d).1 = (load.run machine f d').1 := by
  have hread : (d.step .read (f 0)).1 = (d'.step .read (f 0)).1 := by
    dsimp only [Disk.step]
    rw [h]
    cases d'.path with
    | none => rfl
    | some file => rfl
  -- whether the file can be moved away makes no difference
  have hafter (r : Except ReadError ByteArray) (g : ℕ → Choice) (e e' : Disk) :
      ((afterRead r).run machine g e).1 = ((afterRead r).run machine g e').1 := by
    unfold afterRead
    split
    · rfl
    · rfl
    · split <;> rfl
  have hload (e : Disk) :
      (load.run machine f e).1 =
        ((afterRead (e.step .read (f 0)).1).run machine (fun n => f (n+1)) (e.step .read (f 0)).2).1 := rfl
  rw [hload d, hload d', hread]
  exact hafter _ _ _ _

theorem payload_ne_empty (data : Document) : data.payload.sorted ≠ .dict [] := by
  intro h
  have hsorted : JsonText.sortEntries (JsonText.sortedEntries (data.fields.set "version" (.int 1)).entries) = [] := by
    rw [Document.payload, Value.sorted] at h
    exact Value.dict.inj h
  have hkeys := (List.perm_insertionSort _ _).symm.trans (List.Perm.of_eq hsorted)
  have hnil := congrArg (List.map Prod.fst) (List.Perm.eq_nil hkeys)
  rw [JsonText.keys_sortedEntries, List.map_nil] at hnil
  have hversion := OrderedDict.get?_set_self data.fields "version" (.int 1)
  rw [OrderedDict.get?_eq_some_iff] at hversion
  have hmem := List.mem_map_of_mem (f := Prod.fst) hversion
  rw [hnil] at hmem
  exact List.not_mem_nil hmem

def rotated : Document := ⟨OrderedDict.empty.set "rotation" (.int 90), trivial, trivial⟩

def named : Document := ⟨OrderedDict.empty.set "camera_name" (.str "porch"), trivial, trivial⟩

def twice : Disk :=
  settle { back := 0 } (saving named (List.replicate 7 {}) (settle {} (saving rotated (List.replicate 12 {}) {})))

/-- Whatever is on the volume, a save in which no call fails returns `True` and outlasts any loss of power. -/
theorem working_save_lasts (d : Disk) {text : List Char} (htext : JsonText.dumpAt 0 data.payload = some text)
    {f g : ℕ → Choice} (hf : ∀ n, (f n).mounted = true ∧ (f n).fails = false ∧ (f n).Steady)
    (hg : ∀ n, (g n).Steady) (l : Loss) :
    ((save data).run machine f d).1 = some true ∧
      (load.run machine g (((save data).run machine f d).2.lose l)).1 = data.payload.sorted := by
  have hrun : (save data).run machine f d = (some true, ⟨some ⟨bytesOf text, true⟩, none, []⟩) := by
    simp [save, store, fillTmp, flushTmp, fsyncDir, sys, Prog.op, Bind.bind, Pure.pure, Prog.bind, Prog.run, machine,
      Disk.step, htext, fun n => (hf n).1, fun n => (hf n).2.1, fun n => (hf n).2.2.dir, fun n => (hf n).2.2.close]
  rw [hrun]
  obtain ⟨p, hp, hpath⟩ := path_lose ⟨some ⟨bytesOf text, true⟩, none, []⟩ l
  rw [List.mem_singleton.mp hp] at hpath
  have hsafe := safe_load (t := ⟨_, []⟩) ⟨text, htext, hpath⟩
  exact ⟨rfl, (Prog.run_traced load machine g _).1.symm.trans (hsafe.run hg).1⟩

theorem rotated_save_lasts : ((save rotated).run machine (fun _ => {}) { tmp := some ⟨.empty, true⟩ }).1 = some true :=
  have hsteady : Choice.Steady {} := ⟨rfl, rfl, rfl⟩
  (working_save_lasts _ rfl (fun _ => ⟨rfl, rfl, hsteady⟩) (fun _ => hsteady) {}).1

end Runs

end PiBuddyCam.SettingsStore
