import PiBuddyCam.NetworkApply

/-! What a network transaction that fails leaves of the stored profile. The snapshot decides:
with one the old keyfile is put back or stays, without one the profile is deleted, whether
there was none or it could not be read. -/
namespace PiBuddyCam.Network

/-- The calls after which a stored profile is still stored, the rewrite of the keyfile apart. -/
def Op.KeepsProfile : Op → Prop
  | .command args => args ≠ deleteCommand
  | .replaceKeyfile => False
  | _ => True

def Op.LeavesKeyfile : Op → Prop
  | .command args => args ≠ deleteCommand ∧ edits args = false
  | .replaceKeyfile => False
  | _ => True

theorem Op.LeavesKeyfile.keepsProfile {o : Op} (h : o.LeavesKeyfile) : o.KeepsProfile := by
  cases o with
  | command args => exact h.1
  | replaceKeyfile => exact h
  | _ => trivial

theorem Op.OfStation.keepsProfile {o : Op} (h : o.OfStation) : o.KeepsProfile := by
  cases o with
  | command args => exact h
  | _ => trivial

theorem Op.LeavesKeyfile.step {o : Op} (ho : o.LeavesKeyfile) (net : Net) (c : Choice) :
    (device.step net o c).2.keyfile = net.keyfile := by
  cases o with
  | command args => simp only [device, Net.step, Net.afterCommand, if_neg ho.1, ho.2, Bool.false_eq_true, if_false]
  | replaceKeyfile => exact ho.elim
  | mkstemp dir => simp only [device, Net.step]; split_ifs <;> rfl
  | writeCredential path content => cases content <;> rfl
  | remove path => simp only [device, Net.step]; split_ifs <;> rfl
  | openRestore => simp only [device, Net.step]; split_ifs <;> rfl
  | writeResult report => simp only [device, Net.step]; split_ifs <;> rfl
  | saveWatch watch => simp only [device, Net.step]; split_ifs <;> rfl
  | submit id request => simp only [device, Net.step]; split_ifs <;> rfl
  | _ => rfl

theorem Op.KeepsProfile.step {o : Op} (ho : o.KeepsProfile) {net : Net} (h : net.keyfile.isSome = true) (c : Choice) :
    (device.step net o c).2.keyfile.isSome = true := by
  by_cases hleaves : o.LeavesKeyfile
  · rw [hleaves.step net c]
    exact h
  · cases o with
    | command args =>
      have hdelete : args ≠ deleteCommand := ho
      have hedits : edits args = true := by
        by_contra hne
        exact hleaves ⟨hdelete, Bool.not_eq_true _ ▸ hne⟩
      simp only [device, Net.step, Net.afterCommand, if_neg hdelete, hedits, if_true]
      cases c.stores with
      | none => exact h
      | some content => rfl
    | _ => exact absurd ho hleaves

section Leaves

theorem commandText_leaves {args : List String} (h : args ≠ deleteCommand ∧ edits args = false) :
    (commandText args).Within Op.LeavesKeyfile := by
  apply (sys_within h).bind
  intro r
  split <;> trivial

theorem writeResult_leaves (state : ResultState) (reason : String) :
    (writeResult state reason).Within Op.LeavesKeyfile := by
  refine ⟨trivial, fun _ => ⟨trivial, fun (r : Option String) => ?_⟩⟩
  cases r with
  | none => trivial
  | some cls => exact ⟨trivial, fun _ => trivial⟩

theorem profileInfo_leaves : profileInfo.Within Op.LeavesKeyfile := by
  apply (commandText_leaves ⟨by decide, by decide⟩).bind
  intro out
  cases out <;> trivial

theorem lookOnce_leaves (ifname expected : String) (requirePing : Bool) :
    (lookOnce ifname expected requirePing).Within Op.LeavesKeyfile := by
  have hshow : (linkReady ifname expected).Within Op.LeavesKeyfile := by
    apply (commandText_leaves ⟨by simp [deleteCommand], by simp [edits]⟩).bind
    exact fun _ => trivial
  have hping (gateway : String) : (ping gateway).Within Op.LeavesKeyfile := by
    apply (sys_within ⟨by simp [deleteCommand], by simp [edits]⟩).bind
    intro r
    split <;> trivial
  apply hshow.bind
  intro gateway
  cases gateway with
  | none => trivial
  | some gateway => exact (hping gateway).bind fun _ => trivial

theorem waitHealthy_leaves (polls : ℕ) (ifname expected : String) (requirePing : Bool) (timeout : Time) :
    (waitHealthy polls ifname expected requirePing timeout).Within Op.LeavesKeyfile := by
  have hpoll (deadline : Time) (reason : String) :
      (pollHealthy ifname expected requirePing deadline polls reason).Within Op.LeavesKeyfile := by
    induction polls generalizing reason with
    | zero => trivial
    | succ polls ih =>
      apply (lookOnce_leaves ifname expected requirePing).bind
      rintro ⟨healthy, ready⟩
      cases healthy with
      | true => trivial
      | false =>
        apply (sys_within trivial).bind
        intro (now : Time)
        split
        · trivial
        · exact ⟨trivial, fun _ => ih _⟩
  exact ⟨trivial, fun start => hpoll _ _⟩

theorem startHotspot_leaves (reason : String) : (startHotspot reason).Within Op.LeavesKeyfile := by
  refine ⟨trivial, fun (r : Except String Bool) => ?_⟩
  cases r with
  | ok started => exact (writeResult_leaves _ _).bind fun _ => trivial
  | error cls => exact ⟨trivial, fun _ => (writeResult_leaves _ _).bind fun _ => trivial⟩

theorem applyAndWatch_keeps (printable : Char → Bool) (polls : ℕ) (ifname : String) (request : Request)
    (profile : Profile) : (applyAndWatch printable polls ifname request profile).Within Op.KeepsProfile := by
  apply ((apply_within printable _ _ _ _ _ _ _).mono fun _ => Op.OfStation.keepsProfile).bind
  rintro (- | ⟨- | -, reason⟩)
  · trivial
  · trivial
  · exact (waitHealthy_leaves polls ifname _ _ _).mono fun _ => Op.LeavesKeyfile.keepsProfile

end Leaves

abbrev Entry := (o : Op) × Res o

def Restored (log : List Entry) : Prop := ⟨.replaceKeyfile, (none : Option String)⟩ ∈ log

/-- What is asked of the end: a profile is stored, and one that was put back is the old one. -/
structure Survives (content : String) (t : Traced Op Res Net) : Prop where
  stored : t.state.keyfile.isSome = true
  old : Restored t.log → t.state.keyfile = some content

section Stages

variable {α : Type} {p : Run α} {t : Traced Op Res Net} {A : Choice → Prop} {content : String}

theorem restored_step {o : Op} (ho : o ≠ .replaceKeyfile) (t : Traced Op Res Net) (c : Choice) :
    Restored (device.traced.step t o c).2.log ↔ Restored t.log := by
  have hne : ¬ ((⟨.replaceKeyfile, (none : Option String)⟩ : Entry) ∈ [(⟨o, (device.step t.state o c).1⟩ : Entry)]) := by
    intro h
    have heq := congrArg Sigma.fst (List.mem_singleton.mp h)
    exact ho heq.symm
  exact List.mem_append.trans (or_iff_left hne)

def Held (t : Traced Op Res Net) : Prop := t.state.keyfile.isSome = true ∧ ¬ Restored t.log

theorem Held.survives (h : Held t) : Survives content t := ⟨h.1, fun hr => absurd hr h.2⟩

theorem held_of_keeps (hp : p.Within Op.KeepsProfile) (ht : Held t) :
    p.Safe device.traced A (fun _ => True) (fun _ => Held) t := by
  refine (hp.safe (J := Held) ht ?_).mono (fun _ _ => trivial) fun _ _ h => h
  rintro t' o c ho - ⟨hstored, hnot⟩
  have hne : o ≠ .replaceKeyfile := by
    rintro rfl
    exact ho
  exact ⟨ho.step hstored c, fun h => hnot ((restored_step hne t' c).mp h)⟩

theorem kept_of_leaves (hp : p.Within Op.LeavesKeyfile) :
    p.Safe device.traced A (fun _ => True)
      (fun _ t' => t'.state.keyfile = t.state.keyfile ∧ (Restored t'.log ↔ Restored t.log)) t := by
  refine (hp.safe (J := fun t' => t'.state.keyfile = t.state.keyfile ∧ (Restored t'.log ↔ Restored t.log))
    ⟨rfl, Iff.rfl⟩ ?_).mono (fun _ _ => trivial) fun _ _ h => h
  rintro t' o c ho - ⟨hkey, hlog⟩
  have hne : o ≠ .replaceKeyfile := by
    rintro rfl
    exact ho
  exact ⟨(ho.step t'.state c).trans hkey, (restored_step hne t' c).trans hlog⟩

theorem Survives.of_kept {t' : Traced Op Res Net} (h : Survives content t)
    (hkey : t'.state.keyfile = t.state.keyfile) (hlog : Restored t'.log ↔ Restored t.log) : Survives content t' := by
  constructor
  · rw [hkey]
    exact h.stored
  · intro hr
    rw [hkey]
    exact h.old (hlog.mp hr)

theorem survives_of_leaves (hp : p.Within Op.LeavesKeyfile) (ht : Survives content t) :
    p.Safe device.traced A (fun _ => True) (fun _ => Survives content) t :=
  (kept_of_leaves hp).post fun _ _ h => ht.of_kept h.1 h.2

theorem rewriteKeyfile_survives (ht : Held t) :
    (rewriteKeyfile content).Safe device.traced A (fun _ => True) (fun _ => Survives content) t := by
  have hopen : (sys .openRestore).Safe device.traced A (fun _ => True) (fun _ => Held) t :=
    held_of_keeps (sys_within trivial) ht
  apply hopen.bind
  intro (r : Option String) t₁ ht₁
  cases r with
  | some cls => exact ht₁.survives
  | none =>
    have hwrite : (sys (.writeRestore content)).Safe device.traced A (fun _ => True)
        (fun (r : Option String) t' => Held t' ∧ (r = none → t'.state.restore = some content)) t₁ := by
      intro c _
      refine ⟨trivial, ⟨ht₁.1, fun h => ht₁.2 ((restored_step (o := .writeRestore content) (by simp) t₁ c).mp h)⟩, fun hr => ?_⟩
      have hok : c.failed = none := hr
      simp only [Machine.traced, device, Net.step, Choice.ok, hok, Option.isNone_none, if_true]
    apply hwrite.bind
    intro (r : Option String) t₂ hwritten
    obtain ⟨ht₂, hcontent⟩ := hwritten
    cases r with
    | some cls => exact ht₂.survives
    | none =>
      intro c _
      refine ⟨trivial, ?_⟩
      cases hfailed : c.failed with
      | none =>
        have hkey : (device.traced.step t₂ .replaceKeyfile c).2.state.keyfile = some content := by
          simp only [Machine.traced, device, Net.step, Choice.ok, hfailed, Option.isNone_none, if_true, hcontent]
        exact ⟨by rw [hkey]; rfl, fun _ => hkey⟩
      | some cls =>
        -- nothing was put back, so the log says so
        have hkey : (device.traced.step t₂ .replaceKeyfile c).2.state.keyfile = t₂.state.keyfile := by
          simp only [Machine.traced, device, Net.step, Choice.ok, hfailed, Option.isNone_some, Bool.false_eq_true, if_false]
        have hlog : ¬ Restored (device.traced.step t₂ .replaceKeyfile c).2.log := by
          intro h
          rcases List.mem_append.mp h with h | h
          · exact ht₂.2 h
          · have hr : (none : Option String) = c.failed := eq_of_heq (Sigma.mk.inj (List.mem_singleton.mp h)).2
            rw [hfailed] at hr
            cases hr
        exact ⟨by rw [hkey]; exact ht₂.1, fun h => absurd h hlog⟩

theorem restore_survives (ht : Held t) :
    (restore (some content)).Safe device.traced A (fun _ => True) (fun _ => Survives content) t := by
  apply (rewriteKeyfile_survives ht).bind
  intro r t₁ ht₁
  cases r with
  | some cls => exact survives_of_leaves ((sys_within trivial).bind fun _ => trivial) ht₁
  | none =>
    have hreload : (commandText reloadCommand).Within Op.LeavesKeyfile := commandText_leaves ⟨by decide, by decide⟩
    have hup : (commandText upCommand).Within Op.LeavesKeyfile := commandText_leaves ⟨by decide, by decide⟩
    exact survives_of_leaves (hreload.bind fun _ => hup.bind fun _ => trivial) ht₁

theorem restore_deletes {deletes : Bool} (hA : ∀ c, A c → c.deletes = deletes) (ht : Held t) :
    (restore none).Safe device.traced A (fun _ => True)
      (fun _ t' => Survives content t' ↔ deletes = false) t := by
  have hdelete : (commandText deleteCommand).Safe device.traced A (fun _ => True)
      (fun _ t' => Survives content t' ↔ deletes = false) t := by
    apply Prog.Safe.bind (Q := fun _ t' => Survives content t' ↔ deletes = false)
    · intro c hc
      refine ⟨trivial, ?_⟩
      have hkey : (device.traced.step t (.command deleteCommand) c).2.state.keyfile =
          if deletes then none else t.state.keyfile := by
        simp only [Machine.traced, device, Net.step, Net.afterCommand, if_true, hA c hc]
      have hlog : ¬ Restored (device.traced.step t (.command deleteCommand) c).2.log :=
        fun h => ht.2 ((restored_step (o := .command deleteCommand) (by simp) t c).mp h)
      cases deletes with
      | true =>
        refine iff_of_false (fun h => ?_) (by decide)
        have hstored := h.stored
        rw [hkey] at hstored
        cases hstored
      | false => exact iff_of_true ⟨by rw [hkey]; exact ht.1, fun h => absurd h hlog⟩ rfl
    · intro r t' h
      split <;> exact h
  have hreload : Prog.Within Op.LeavesKeyfile (do let _ ← commandText reloadCommand; pure true) :=
    (commandText_leaves ⟨by decide, by decide⟩).bind fun _ => trivial
  apply hdelete.bind
  intro _ t₁ ht₁
  apply (kept_of_leaves hreload).post
  rintro r t₂ ⟨hkey, hlog⟩
  rw [← ht₁]
  exact ⟨fun h => h.of_kept hkey.symm hlog.symm, fun h => h.of_kept hkey hlog⟩

end Stages

section Run

variable {t : Traced Op Res Net} {A : Choice → Prop} {content : String}

theorem afterRestore_leaves (polls : ℕ) (ifname : String) (snapshot : Option String) (reason : String)
    (restored : Bool) :
    Prog.Within Op.LeavesKeyfile (do
      match ← oldProfileHealthy polls ifname restored snapshot with
      | none => pure none
      | some true =>
        writeResult .reverted reason
        pure (some ResultState.reverted)
      | some false =>
        let state ← startHotspot reason
        pure (some state) : Run (Option ResultState)) := by
  have hhealthy : (oldProfileHealthy polls ifname restored snapshot).Within Op.LeavesKeyfile := by
    unfold oldProfileHealthy
    split
    · exact (waitHealthy_leaves polls ifname "" false 30).bind fun _ => trivial
    · trivial
  apply hhealthy.bind
  rintro (- | - | -)
  · trivial
  · exact (startHotspot_leaves reason).bind fun _ => trivial
  · exact (writeResult_leaves _ reason).bind fun _ => trivial

/-- Once the apply failed: with a snapshot the profile survives, without one exactly when the
deletion does not happen. -/
theorem revert_survives {deletes : Bool} (hA : ∀ c, A c → c.deletes = deletes) {snapshot : Option String}
    (hsnapshot : snapshot = none ∨ snapshot = some content) (ht : Held t) (polls : ℕ) (ifname reason : String) :
    (revert polls ifname snapshot reason).Safe device.traced A (fun _ => True)
      (fun _ t' => Survives content t' ↔ snapshot ≠ none ∨ deletes = false) t := by
  have hlog : (sys (.log ("network_apply: apply failed (" ++ (if reason = "" then "activation failed" else reason) ++
      "); restoring the previous profile"))).Safe device.traced A (fun _ => True) (fun _ => Held) t :=
    held_of_keeps (sys_within trivial) ht
  apply hlog.bind
  intro _ t₁ ht₁
  have hrestore : (restore snapshot).Safe device.traced A (fun _ => True)
      (fun _ t' => Survives content t' ↔ snapshot ≠ none ∨ deletes = false) t₁ := by
    rcases hsnapshot with rfl | rfl
    · apply (restore_deletes hA ht₁).post
      intro _ t' h
      simpa using h
    · apply (restore_survives ht₁).post
      intro _ t' h
      exact iff_of_true h (Or.inl nofun)
  apply hrestore.bind
  intro restored t₂ ht₂
  apply (kept_of_leaves (afterRestore_leaves polls ifname snapshot _ restored)).post
  rintro r t₃ ⟨hkey, hlog⟩
  rw [← ht₂]
  exact ⟨fun h => h.of_kept hkey.symm hlog.symm, fun h => h.of_kept hkey hlog⟩

theorem revert_returns (polls : ℕ) (ifname reason : String) :
    (revert polls ifname none reason).Safe device.traced A (fun _ => True) (fun r _ => r ≠ none) t := by
  unfold revert
  apply Prog.Safe.bind (Prog.safe_trivial _ _)
  intro _ t₁ _
  apply Prog.Safe.bind (Prog.safe_trivial _ _)
  intro restored t₂ _
  have hnone : oldProfileHealthy polls ifname restored none = pure (some false) := by
    rw [oldProfileHealthy, Option.isSome_none, Bool.and_false, if_neg Bool.false_ne_true]
  rw [hnone]
  apply Prog.Safe.bind (Prog.safe_trivial (startHotspot _) _)
  exact fun _ _ _ => nofun

-- what the parts of the transaction do is known, so they are not computed below
attribute [local irreducible] profileInfo applyAndWatch revert

def Outcomes (content : String) (readable deletes : Bool) (result : Option ResultState) (t : Traced Op Res Net) :
    Prop :=
  (result = none → Survives content t) ∧
    ∀ state, result = some state → state ≠ .applied → (Survives content t ↔ readable = true ∨ deletes = false)

theorem run_outcomes {readable deletes : Bool} (hA : ∀ c, A c → c.readable = readable ∧ c.deletes = deletes)
    (hkey : t.state.keyfile = some content) (hlog : ¬ Restored t.log) (printable : Char → Bool) (polls : ℕ)
    (ifname : String) (request : Request) :
    (run printable polls ifname request).Safe device.traced A (fun _ => True) (Outcomes content readable deletes) t := by
  unfold run
  apply (kept_of_leaves (writeResult_leaves .applying "")).bind
  rintro _ t₁ ⟨hkey₁, hlog₁⟩
  apply (kept_of_leaves profileInfo_leaves).bind
  rintro profile t₂ ⟨hkey₂, hlog₂⟩
  have hheld : t₂.state.keyfile = some content := hkey₂.trans (hkey₁.trans hkey)
  have hread : takeSnapshot.Safe device.traced A (fun _ => True)
      (fun r t' => r = (if readable then some content else none) ∧ Held t') t₂ := by
    intro c hc
    refine ⟨trivial, ?_, ?_, ?_⟩
    · have hreadable := (hA c hc).1
      change (if c.readable then t₂.state.keyfile else none) = _
      rw [hreadable, hheld]
    · change t₂.state.keyfile.isSome = true
      rw [hheld]
      rfl
    · exact fun h => hlog (hlog₁.mp (hlog₂.mp ((restored_step (o := .readKeyfile) nofun t₂ c).mp h)))
  apply hread.bind
  rintro snapshot t₃ ⟨hsnapshot, ht₃⟩
  apply (held_of_keeps (applyAndWatch_keeps printable polls ifname request profile) ht₃).bind
  rintro (- | ⟨- | -, reason⟩) t₄ ht₄
  · exact ⟨fun _ => ht₄.survives, nofun⟩
  · have hdeletes (c : Choice) (hc : A c) : c.deletes = deletes := (hA c hc).2
    cases readable with
    | true =>
      obtain rfl : snapshot = some content := hsnapshot
      apply (revert_survives hdeletes (Or.inr rfl) ht₄ polls ifname reason).post
      intro r t₅ h
      have hsurvives := h.mpr (Or.inl nofun)
      exact ⟨fun _ => hsurvives, fun _ _ _ => iff_of_true hsurvives (Or.inl rfl)⟩
    | false =>
      obtain rfl : snapshot = none := hsnapshot
      have hcase : (none : Option String) = none ∨ none = some content := Or.inl rfl
      have hrevert := (revert_survives hdeletes hcase ht₄ polls ifname reason).conj
        (revert_returns (t := t₄) (A := A) polls ifname reason)
      apply hrevert.mono (fun _ _ => trivial)
      rintro r t₅ ⟨h, hreturns⟩
      refine ⟨fun hnone => absurd hnone hreturns, fun _ _ _ => ?_⟩
      rw [h]
      exact ⟨fun hor => hor.imp (fun hne => absurd rfl hne) id, fun hor => hor.imp (nomatch ·) id⟩
  · apply Prog.Safe.bind (Prog.safe_trivial (writeResult .applied "") _)
    intro _ _ _
    refine ⟨nofun, fun state hstate hne => ?_⟩
    exact absurd (Option.some.inj hstate).symm hne

end Run

/-- One transaction: whether the keyfile can be read and whether `nmcli connection delete` deletes
are given apart from the other answers. -/
def transaction (printable : Char → Bool) (polls : ℕ) (ifname : String) (request : Request) (answers : ℕ → Choice)
    (readable deletes : Bool) (net : Net) : Option ResultState × Traced Op Res Net :=
  (run printable polls ifname request).run device.traced
    (fun n => { answers n with readable := readable, deletes := deletes }) ⟨net, []⟩

/-- On a stored profile, whatever the commands and the files do: a transaction that ends without
a state leaves a profile stored, the old one if it was put back; and one that ends in another
state than `applied` does so exactly when the keyfile could be read or the deletion did not
happen. -/
theorem stored_profile_survives_iff (printable : Char → Bool) (polls : ℕ) (ifname : String) (request : Request)
    (answers : ℕ → Choice) (readable deletes : Bool) (net : Net) (content : String)
    (hstored : net.keyfile = some content) :
    ((transaction printable polls ifname request answers readable deletes net).1 = none →
      Survives content (transaction printable polls ifname request answers readable deletes net).2) ∧
    ∀ state, (transaction printable polls ifname request answers readable deletes net).1 = some state →
      state ≠ .applied →
      (Survives content (transaction printable polls ifname request answers readable deletes net).2 ↔
        readable = true ∨ deletes = false) := by
  have hsafe := run_outcomes (t := ⟨net, []⟩) (A := fun c => c.readable = readable ∧ c.deletes = deletes)
    (fun _ hc => hc) hstored (fun h => nomatch h) printable polls ifname request
  exact hsafe.run fun _ => ⟨rfl, rfl⟩

def wrongKeyAnswers (n : ℕ) : Choice :=
  { outcome := .done (some (if n = 10 then 4 else 0)) "", time := 100*n }

/-- A keyfile that can be read is put back. -/
theorem wrong_key_profile_survives :
    (transaction (fun _ => true) 3 "wlan0" ⟨"lab", .text "12345678", none⟩ wrongKeyAnswers true true
      { keyfile := some "old" }).1 = some .hotspot ∧
    Survives "old" (transaction (fun _ => true) 3 "wlan0" ⟨"lab", .text "12345678", none⟩ wrongKeyAnswers true true
      { keyfile := some "old" }).2 := by
  have hstate : (transaction (fun _ => true) 3 "wlan0" ⟨"lab", .text "12345678", none⟩ wrongKeyAnswers true true
      { keyfile := some "old" }).1 = some .hotspot := by decide +kernel
  have h := stored_profile_survives_iff (fun _ => true) 3 "wlan0" ⟨"lab", .text "12345678", none⟩ wrongKeyAnswers
    true true { keyfile := some "old" } "old" rfl
  exact ⟨hstate, (h.2 .hotspot hstate (by decide)).mpr (Or.inl rfl)⟩

/-- One that cannot be read is taken for none, and the profile is deleted. -/
theorem unreadable_keyfile_profile_deleted :
    (transaction (fun _ => true) 3 "wlan0" ⟨"lab", .text "12345678", none⟩ wrongKeyAnswers false true
      { keyfile := some "old" }).1 = some .hotspot ∧
    (transaction (fun _ => true) 3 "wlan0" ⟨"lab", .text "12345678", none⟩ wrongKeyAnswers false true
      { keyfile := some "old" }).2.state.keyfile = none := ⟨by decide +kernel, by decide +kernel⟩

end PiBuddyCam.Network
