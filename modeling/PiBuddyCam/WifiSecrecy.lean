import PiBuddyCam.ProgPair
import PiBuddyCam.WifiStation

/-! Two runs of `wifi_station.apply` that differ in the key. From outside they are told apart by
the name of the credential file only, and neither leaves the file behind. -/
namespace PiBuddyCam.Network

open Prog (Paired)

variable (printable : Char → Bool) (ssid ifname : String) (passwdDir : Option String) (ipv4 : Ipv4) (keepPsk : Bool)

section Pairs

variable (n₁ n₂ : String)

def SameWord (a b : String) : Prop := a = b ∨ (a = n₁ ∧ b = n₂)

/-- Calls that are the same but for the credential file, its name and what is written to it. -/
def SameCall : Op → Op → Prop
  | .command a, .command b => List.Forall₂ (SameWord n₁ n₂) a b
  | .log a, .log b => a = b
  | .tempDir, .tempDir => True
  | .writableDir a, .writableDir b => a = b
  | .mkstemp a, .mkstemp b => a = b
  | .fchmod a, .fchmod b => a = n₁ ∧ b = n₂
  | .writeCredential a x, .writeCredential b y => (a = n₁ ∧ b = n₂) ∧ x.isSome = true ∧ y.isSome = true
  | .close, .close => True
  | .remove a, .remove b => a = n₁ ∧ b = n₂
  | _, _ => False

def SameAnswer : (o : Op) → Res o → (o' : Op) → Res o' → Prop
  | .command _, r, .command _, r' => r = r'
  | .log _, _, .log _, _ => True
  | .tempDir, r, .tempDir, r' => r = r'
  | .writableDir _, r, .writableDir _, r' => r = r'
  | .mkstemp _, r, .mkstemp _, r' => (r = none ∧ r' = none) ∨ (r = some n₁ ∧ r' = some n₂)
  | .fchmod _, r, .fchmod _, r' => r = r'
  | .writeCredential _ _, r, .writeCredential _ _, r' => r = r'
  | .close, _, .close, _ => True
  | .remove _, r, .remove _, r' => r = r'
  | _, _, _, _ => False

end Pairs

section Programs

variable {n₁ n₂ : String} {α β : Type} {R : α → β → Prop}

abbrev LooksSame (n₁ n₂ : String) (R : α → β → Prop) (p : Run α) (q : Run β) : Prop :=
  Paired (SameCall n₁ n₂) (SameAnswer n₁ n₂) R p q

theorem sameWords_refl (args : List String) : List.Forall₂ (SameWord n₁ n₂) args args :=
  List.forall₂_same.mpr fun _ _ => Or.inl rfl

theorem log_same (text : String) : LooksSame n₁ n₂ (fun _ _ => True) (sys (.log text)) (sys (.log text)) :=
  .call rfl fun _ _ _ => .ret trivial

theorem runCommand_same {args args' : List String} (h : List.Forall₂ (SameWord n₁ n₂) args args') :
    LooksSame n₁ n₂ Eq (runCommand args) (runCommand args') := by
  refine .call h fun (r : Outcome) (r' : Outcome) (hr : r = r') => ?_
  subst hr
  cases r with
  | raised cls => exact (log_same _).bind fun _ _ _ => .ret rfl
  | _ => exact .ret rfl

/-- The calls that have nothing to do with the credential file. -/
def Op.Unnamed : Op → Prop
  | .command _ | .log _ | .tempDir | .writableDir _ => True
  | _ => False

theorem same_of_unnamed {p : Run α} (hp : p.Within Op.Unnamed) : LooksSame n₁ n₂ Eq p p := by
  refine hp.paired fun o ho => ?_
  cases o with
  | command args => exact ⟨sameWords_refl args, fun _ _ h => h⟩
  | log text => exact ⟨rfl, fun _ _ _ => rfl⟩
  | tempDir => exact ⟨trivial, fun _ _ h => h⟩
  | writableDir dir => exact ⟨rfl, fun _ _ h => h⟩
  | _ => exact ho.elim

theorem removePasswdFile_same :
    LooksSame n₁ n₂ (fun _ _ => True) (removePasswdFile n₁) (removePasswdFile n₂) := by
  refine .call ⟨rfl, rfl⟩ fun (r : Bool) (r' : Bool) (hr : r = r') => ?_
  subst hr
  cases r with
  | true => exact .ret trivial
  | false => exact log_same _

def SameFile (n₁ n₂ : String) (r r' : Option (Except String String)) : Prop :=
  (r = r' ∧ ∀ path, r ≠ some (.ok path)) ∨ (r = some (.ok n₁) ∧ r' = some (.ok n₂))

theorem discardPasswdFile_same :
    LooksSame n₁ n₂ (SameFile n₁ n₂) (discardPasswdFile n₁) (discardPasswdFile n₂) := by
  refine .call trivial fun _ _ _ => ?_
  apply removePasswdFile_same.bind
  exact fun _ _ _ => .ret (Or.inl ⟨rfl, nofun⟩)

theorem writePasswdFile_same (k₁ k₂ : String) (directory : Option String) :
    LooksSame n₁ n₂ (SameFile n₁ n₂) (writePasswdFile (.text k₁) directory) (writePasswdFile (.text k₂) directory) := by
  apply (same_of_unnamed (passwdFileDir_within trivial (fun _ => trivial) directory)).bind
  rintro dir _ rfl
  cases dir with
  | none => exact .ret (Or.inl ⟨rfl, nofun⟩)
  | some dir =>
    refine .call rfl fun (r : Option String) (r' : Option String) hr => ?_
    rcases hr with ⟨rfl, rfl⟩ | ⟨rfl, rfl⟩
    · exact .ret (Or.inl ⟨rfl, nofun⟩)
    refine .call ⟨rfl, rfl⟩ fun (r : Bool) (r' : Bool) (hr : r = r') => ?_
    subst hr
    cases r with
    | false => exact discardPasswdFile_same
    | true =>
      refine .call ⟨⟨rfl, rfl⟩, rfl, rfl⟩ fun (r : Written) (r' : Written) (hr : r = r') => ?_
      subst hr
      cases r with
      | ok => exact .ret (Or.inr ⟨rfl, rfl⟩)
      | osError => exact discardPasswdFile_same
      | unencodable => exact .ret (Or.inl ⟨rfl, nofun⟩)

theorem bringUp_same {args args' : List String} (h : List.Forall₂ (SameWord n₁ n₂) args args') :
    LooksSame n₁ n₂ Eq (bringUp printable args) (bringUp printable args') := by
  apply (runCommand_same h).bind
  rintro r _ rfl
  cases r with
  | error failure => exact .ret rfl
  | ok code =>
    dsimp only
    split <;> exact .ret rfl

theorem activate_same (k₁ k₂ : String) (writePsk : Bool) :
    LooksSame n₁ n₂ Eq (activate printable (.text k₁) writePsk passwdDir)
      (activate printable (.text k₂) writePsk passwdDir) := by
  unfold activate
  split
  · apply (writePasswdFile_same k₁ k₂ passwdDir).bind
    rintro r r' (⟨rfl, hfails⟩ | ⟨rfl, rfl⟩)
    · rcases r with - | ⟨reason⟩ | ⟨path⟩
      · exact .ret rfl
      · exact .ret rfl
      · exact absurd rfl (hfails path)
    · -- the one command line that names the file
      have hup : List.Forall₂ (SameWord n₁ n₂) (upWithPasswdFileCommand n₁) (upWithPasswdFileCommand n₂) :=
        List.rel_append (sameWords_refl upCommand) (.cons (Or.inl rfl) (.cons (Or.inr ⟨rfl, rfl⟩) .nil))
      apply (bringUp_same printable hup).bind
      rintro result _ rfl
      exact removePasswdFile_same.bind fun _ _ _ => .ret rfl
  · apply (same_of_unnamed (bringUp_within (fun _ => trivial) printable trivial)).bind
    rintro result _ rfl
    exact .ret rfl

variable {k₁ k₂ : String}

theorem applyKnown_same (h₁ : (Key.text k₁).given = true) (h₂ : (Key.text k₂).given = true) (known : Bool) :
    LooksSame n₁ n₂ Eq (applyKnown printable ssid (.text k₁) ifname passwdDir ipv4 keepPsk known)
      (applyKnown printable ssid (.text k₂) ifname passwdDir ipv4 keepPsk known) := by
  unfold applyKnown
  rw [h₁, h₂]
  cases ipv4Args ipv4 with
  | none => exact .ret rfl
  | some args =>
    apply (same_of_unnamed (storeProfile_within (fun _ => trivial) printable trivial trivial)).bind
    rintro r _ rfl
    cases r with
    | some failure => exact .ret rfl
    | none => exact activate_same printable passwdDir k₁ k₂ _

theorem applyChecked_same (h₁ : (Key.text k₁).given = true) (h₂ : (Key.text k₂).given = true)
    (existing : Option Bool) :
    LooksSame n₁ n₂ Eq (applyChecked printable ssid (.text k₁) ifname passwdDir ipv4 keepPsk existing)
      (applyChecked printable ssid (.text k₂) ifname passwdDir ipv4 keepPsk existing) := by
  apply (same_of_unnamed (profileKnown_within (fun _ => trivial) trivial existing)).bind
  rintro known _ rfl
  exact applyKnown_same printable ssid ifname passwdDir ipv4 keepPsk h₁ h₂ known

def Legal (key : String) : Prop := 8 ≤ key.length ∧ key.length ≤ 63

theorem apply_same (h₁ : Legal k₁) (h₂ : Legal k₂) (ssid : Option String) (existing : Option Bool) :
    LooksSame n₁ n₂ Eq (apply printable ssid (.key (.text k₁)) ifname passwdDir ipv4 keepPsk existing)
      (apply printable ssid (.key (.text k₂)) ifname passwdDir ipv4 keepPsk existing) := by
  have hgiven {k : String} (h : Legal k) : (Key.text k).given = true := by
    have hlength : k.length ≠ 0 := by
      have := h.1
      omega
    exact decide_eq_true hlength
  have hlegal {k : String} (h : Legal k) :
      ¬((Key.text k).given = true ∧ ¬(8 ≤ (Key.text k).length ∧ (Key.text k).length ≤ 63)) :=
    fun hbad => hbad.2 h
  unfold apply
  cases ssid with
  | none => exact .ret rfl
  | some name =>
    dsimp only
    split
    · exact .ret rfl
    · rw [if_neg (hlegal h₁), if_neg (hlegal h₂)]
      exact applyChecked_same printable _ ifname passwdDir ipv4 keepPsk (hgiven h₁) (hgiven h₂) existing

end Programs

section Removal

def Op.Elsewhere : Op → Prop
  | .mkstemp _ | .writeCredential _ _ | .remove _ => False
  | _ => True

def Tidying (files : String → Option String) (c : Choice) : Prop := files c.path = none ∧ c.removed = true

variable {files : String → Option String} {net : Net} {α : Type}

theorem Op.Elsewhere.credentials {o : Op} (ho : o.Elsewhere) (net : Net) (c : Choice) :
    (device.step net o c).2.credentials = net.credentials := by
  cases o with
  | command args =>
    simp only [device, Net.step, Net.afterCommand]
    split_ifs <;> rfl
  | openRestore => simp only [device, Net.step]; split_ifs <;> rfl
  | replaceKeyfile => simp only [device, Net.step]; split_ifs <;> rfl
  | writeResult report => simp only [device, Net.step]; split_ifs <;> rfl
  | saveWatch watch => simp only [device, Net.step]; split_ifs <;> rfl
  | submit id request => simp only [device, Net.step]; split_ifs <;> rfl
  | mkstemp dir => exact ho.elim
  | writeCredential path content => exact ho.elim
  | remove path => exact ho.elim
  | _ => rfl

theorem elsewhere_safe {p : Run α} (hp : p.Within Op.Elsewhere) (A : Choice → Prop) :
    p.Safe device A (fun _ => True) (fun _ net' => net'.credentials = net.credentials) net := by
  refine (hp.safe (J := fun net' => net'.credentials = net.credentials) rfl ?_).mono (fun _ _ => trivial) fun _ _ h => h
  intro net' o c ho _ h
  exact (ho.credentials net' c).trans h

variable {path : String}

theorem removePasswdFile_removes (hnew : files path = none)
    (hnet : ∃ content, net.credentials = Function.update files path content) :
    (removePasswdFile path).Safe device (Tidying files) (fun _ => True)
      (fun _ net' => net'.credentials = files) net := by
  intro c hc
  have hremoved : c.removed = true := hc.2
  obtain ⟨content, hcontent⟩ := hnet
  refine ⟨trivial, ?_⟩
  simp only [device, Net.step, hremoved]
  change Function.update net.credentials path none = files
  rw [hcontent, Function.update_idem, ← hnew, Function.update_eq_self]

/-- What is known of the credential files once the key was written: with a path the file is
there, with a reason it is not. -/
def Filed (files : String → Option String) : Option (Except String String) → Net → Prop
  | some (.ok path), net => files path = none ∧ ∃ content, net.credentials = Function.update files path content
  | some (.error _), net => net.credentials = files
  | none, _ => True

theorem discardPasswdFile_removes (hnew : files path = none)
    (hnet : ∃ content, net.credentials = Function.update files path content) :
    (discardPasswdFile path).Safe device (Tidying files) (fun _ => True) (Filed files) net := by
  intro c _
  refine ⟨trivial, ?_⟩
  exact (removePasswdFile_removes hnew hnet).bind fun _ _ h => h

theorem mkstemp_files (dir : String) (hnet : net.credentials = files) :
    (sys (.mkstemp dir)).Safe device (Tidying files) (fun _ => True)
      (fun (r : Option String) net' => Filed files (some (r.elim (.error "") .ok)) net') net := by
  intro c hc
  refine ⟨trivial, ?_⟩
  cases hok : c.ok with
  | false =>
    simp only [device, Net.step, hok]
    exact hnet
  | true =>
    simp only [device, Net.step, hok, if_true]
    exact ⟨hc.1, some "", by rw [hnet]⟩

theorem writeCredential_files (content : Option String)
    (hnet : ∃ content, net.credentials = Function.update files path content) :
    (sys (.writeCredential path content)).Safe device (Tidying files) (fun _ => True)
      (fun _ net' => ∃ content, net'.credentials = Function.update files path content) net := by
  obtain ⟨old, hold⟩ := hnet
  have hupdate (new : String) : ∃ content, Function.update net.credentials path (some new) =
      Function.update files path content := ⟨some new, by rw [hold, Function.update_idem]⟩
  intro c _
  refine ⟨trivial, ?_⟩
  cases content with
  | none => exact hupdate c.left
  | some text => exact hupdate _

theorem writePasswdFile_files (key : Key) (directory : Option String) (hnet : net.credentials = files) :
    (writePasswdFile key directory).Safe device (Tidying files) (fun _ => True) (Filed files) net := by
  apply (elsewhere_safe (passwdFileDir_within trivial (fun _ => trivial) directory) _).bind
  intro dir net₁ hnet₁
  cases dir with
  | none => trivial
  | some dir =>
    apply (mkstemp_files dir (hnet₁.trans hnet)).bind
    intro (r : Option String) net₂ hnet₂
    cases r with
    | none => exact hnet₂
    | some path =>
      obtain ⟨hnew, hfile⟩ := hnet₂
      intro c _
      refine ⟨trivial, ?_⟩
      change Prog.Safe device _ _ (if !c.ok then discardPasswdFile path else _) _ net₂
      cases c.ok with
      | false => exact discardPasswdFile_removes hnew hfile
      | true =>
        apply (writeCredential_files (passwdContent key) hfile).bind
        intro (r : Written) net₃ hfile'
        cases r with
        | ok => exact ⟨hnew, hfile'⟩
        | osError => exact discardPasswdFile_removes hnew hfile'
        | unencodable => trivial

theorem activate_files (key : Key) (writePsk : Bool) (hnet : net.credentials = files) :
    (activate printable key writePsk passwdDir).Safe device (Tidying files) (fun _ => True)
      (fun r net' => r.isSome = true → net'.credentials = files) net := by
  unfold activate
  split
  · apply (writePasswdFile_files key passwdDir hnet).bind
    rintro (- | ⟨reason⟩ | ⟨path⟩) net₁ hnet₁
    · exact nofun
    · exact fun _ => hnet₁
    · obtain ⟨hnew, hfile⟩ := hnet₁
      apply (elsewhere_safe (bringUp_within (fun _ => trivial) printable trivial) _).bind
      intro result net₂ hnet₂
      rw [← hnet₂] at hfile
      exact (removePasswdFile_removes hnew hfile).bind fun _ _ h _ => h
  · apply (elsewhere_safe (bringUp_within (fun _ => trivial) printable trivial) _).bind
    exact fun _ _ h _ => h.trans hnet

theorem applyKnown_files (key : Key) (known : Bool) (hnet : net.credentials = files) :
    (applyKnown printable ssid key ifname passwdDir ipv4 keepPsk known).Safe device (Tidying files) (fun _ => True)
      (fun r net' => r.isSome = true → net'.credentials = files) net := by
  unfold applyKnown
  cases ipv4Args ipv4 with
  | none => exact nofun
  | some args =>
    apply (elsewhere_safe (storeProfile_within (fun _ => trivial) printable trivial trivial) _).bind
    intro r net₁ hnet₁
    cases r with
    | some failure => exact fun _ => hnet₁.trans hnet
    | none =>
      dsimp only
      split
      · exact activate_files printable passwdDir key _ (hnet₁.trans hnet)
      · apply (elsewhere_safe (runCommand_within (fun _ => trivial) trivial) _).bind
        intro _ net₂ hnet₂
        exact activate_files printable passwdDir key _ (hnet₂.trans (hnet₁.trans hnet))

theorem apply_files (ssid : Option String) (psk : Psk) (existing : Option Bool) (hnet : net.credentials = files) :
    (apply printable ssid psk ifname passwdDir ipv4 keepPsk existing).Safe device (Tidying files) (fun _ => True)
      (fun r net' => r.isSome = true → net'.credentials = files) net := by
  have hchecked (name : String) (key : Key) :
      (applyChecked printable name key ifname passwdDir ipv4 keepPsk existing).Safe device (Tidying files)
        (fun _ => True) (fun r net' => r.isSome = true → net'.credentials = files) net := by
    apply (elsewhere_safe (profileKnown_within (fun _ => trivial) trivial existing) _).bind
    intro known net₁ hnet₁
    exact applyKnown_files printable name ifname passwdDir ipv4 keepPsk key known (hnet₁.trans hnet)
  unfold apply
  cases ssid with
  | none => exact fun _ => hnet
  | some name =>
    dsimp only
    split
    · exact fun _ => hnet
    · cases psk with
      | notString => exact fun _ => hnet
      | null => exact hchecked _ _
      | key key =>
        dsimp only
        split
        · exact fun _ => hnet
        · exact hchecked _ _

end Removal

def Op.Seen : Op → Bool
  | .command _ | .log _ => true
  | _ => false

def applyRun (printable : Char → Bool) (ssid : Option String) (psk : Psk) (ifname : String) (passwdDir : Option String)
    (ipv4 : Ipv4) (keepPsk : Bool) (existing : Option Bool) (name : String) (answers : ℕ → Choice) (net : Net) :
    Option (Bool × String) × Traced Op Res Net :=
  (apply printable ssid psk ifname passwdDir ipv4 keepPsk existing).run device.traced
    (fun n => { answers n with path := name }) ⟨net, []⟩

/-- To calls that look the same the device gives answers that do, if it answers the same but for
the name. -/
theorem step_same {n₁ n₂ : String} (c : Choice) (net net' : Net) {o o' : Op} (h : SameCall n₁ n₂ o o') :
    SameAnswer n₁ n₂ o (device.step net o { c with path := n₁ }).1 o'
      (device.step net' o' { c with path := n₂ }).1 := by
  cases o <;> first | exact h.elim | (cases o' <;> try exact h.elim)
  case mkstemp.mkstemp dir dir' =>
    obtain ⟨failed⟩ := c
    cases failed with
    | none => exact Or.inr ⟨rfl, rfl⟩
    | some cls => exact Or.inl ⟨rfl, rfl⟩
  case writeCredential.writeCredential path x path' y =>
    obtain ⟨-, hx, hy⟩ := h
    obtain ⟨text, rfl⟩ := Option.isSome_iff_exists.mp hx
    obtain ⟨text', rfl⟩ := Option.isSome_iff_exists.mp hy
    rfl
  all_goals first | rfl | trivial

theorem SameCall.seen {n₁ n₂ : String} {o o' : Op} (h : SameCall n₁ n₂ o o') : o.Seen = o'.Seen := by
  cases o <;> first | exact h.elim | (cases o' <;> first | rfl | exact h.elim)

/-- Two keys of a legal length, everything else the same: the runs return the same, and their
command lines and log records are the same word by word but for the name of the credential file.
When removals succeed, a run that returns has removed the file, whatever the key. -/
theorem apply_hides_key (printable : Char → Bool) (ssid : Option String) (ifname : String) (passwdDir : Option String)
    (ipv4 : Ipv4) (keepPsk : Bool) (existing : Option Bool) (answers : ℕ → Choice) (k₁ k₂ : String) (h₁ : Legal k₁)
    (h₂ : Legal k₂) (n₁ n₂ : String) (net₁ net₂ : Net) :
    (applyRun printable ssid (.key (.text k₁)) ifname passwdDir ipv4 keepPsk existing n₁ answers net₁).1 =
      (applyRun printable ssid (.key (.text k₂)) ifname passwdDir ipv4 keepPsk existing n₂ answers net₂).1 ∧
    List.Forall₂ (fun e e' => SameCall n₁ n₂ e.1 e'.1)
      ((applyRun printable ssid (.key (.text k₁)) ifname passwdDir ipv4 keepPsk existing n₁ answers net₁).2.log.filter
        (·.1.Seen))
      ((applyRun printable ssid (.key (.text k₂)) ifname passwdDir ipv4 keepPsk existing n₂ answers net₂).2.log.filter
        (·.1.Seen)) ∧
    ∀ psk, net₁.credentials n₁ = none → (∀ n, (answers n).removed = true) →
      (applyRun printable ssid psk ifname passwdDir ipv4 keepPsk existing n₁ answers net₁).1.isSome = true →
      (applyRun printable ssid psk ifname passwdDir ipv4 keepPsk existing n₁ answers net₁).2.state.credentials =
        net₁.credentials := by
  have hpair : LooksSame n₁ n₂ Eq (apply printable ssid (.key (.text k₁)) ifname passwdDir ipv4 keepPsk existing)
      (apply printable ssid (.key (.text k₂)) ifname passwdDir ipv4 keepPsk existing) :=
    apply_same printable ifname passwdDir ipv4 keepPsk h₁ h₂ ssid existing
  have hrun := hpair.run (fun net net' _ _ n h => step_same (answers n) net net' h) ⟨net₁, []⟩ ⟨net₂, []⟩ .nil
  refine ⟨hrun.1, ?_, fun psk hnew hremoved hsome => ?_⟩
  · have hcalls := hrun.2.imp fun _ _ h => h.1
    exact List.rel_filter (fun _ _ h => iff_of_eq (congrArg (· = true) (SameCall.seen h))) hcalls
  · have hsafe := apply_files printable ifname passwdDir ipv4 keepPsk ssid psk existing (Eq.refl net₁.credentials)
    have htidy (n : ℕ) : Tidying net₁.credentials { answers n with path := n₁ } := ⟨hnew, hremoved n⟩
    have hstate := Prog.run_traced (apply printable ssid psk ifname passwdDir ipv4 keepPsk existing) device
      (fun n => { answers n with path := n₁ }) ⟨net₁, []⟩
    rw [applyRun, hstate.2]
    rw [applyRun, hstate.1] at hsome
    exact hsafe.run htidy hsome

/-- Two keys on a device where everything works. -/
theorem two_keys_look_same :
    (applyRun (fun _ => true) (some "lab") (.key (.text "12345678")) "wlan0" none .auto false (some true) "/run/a"
      (fun _ => {}) {}).1 =
      (applyRun (fun _ => true) (some "lab") (.key (.text "abcdefgh")) "wlan0" none .auto false (some true) "/run/b"
        (fun _ => {}) {}).1 ∧
    (applyRun (fun _ => true) (some "lab") (.key (.text "12345678")) "wlan0" none .auto false (some true) "/run/a"
      (fun _ => {}) {}).2.state.credentials = fun _ => none := by
  have h := apply_hides_key (fun _ => true) (some "lab") "wlan0" none .auto false (some true) (fun _ => {}) "12345678"
    "abcdefgh" ⟨by decide, by decide⟩ ⟨by decide, by decide⟩ "/run/a" "/run/b" {} {}
  exact ⟨h.1, h.2.2 _ rfl (fun _ => rfl) (by decide +kernel)⟩

end PiBuddyCam.Network
