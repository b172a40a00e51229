import PiBuddyCam.AdminTlsRuns

/-! A host name that the console accepts, and the certificate for it: the common name has a suffix of six characters
and must not be longer than 64. -/
namespace PiBuddyCam.AdminTls

section Label

variable {cs : List Char}

/-- A label as `validate_hostname` accepts it. -/
structure Label (cs : List Char) : Prop where
  all : ∀ c ∈ cs, isLabelChar c = true
  ne : cs ≠ []
  head : ∀ c, cs.head? = some c → c ≠ '-'
  last : ∀ c, cs.getLast? = some c → c ≠ '-'
  length : cs.length ≤ 63

variable {c : Char}

theorem ne_hyphen_of_isAlnum (h : isAlnum c = true) : c ≠ '-' := by
  rintro rfl
  exact absurd h (by decide)

theorem isLabelChar_of_isAlnum (h : isAlnum c = true) : isLabelChar c = true := by
  rw [isLabelChar, h, Bool.true_or]

theorem label_of_hostLabel (h : hostLabel cs = true) : Label cs := by
  cases cs with
  | nil => cases h
  | cons c cs =>
    simp only [hostLabel, Bool.and_eq_true, Bool.or_eq_true, decide_eq_true_eq] at h
    obtain ⟨hc, hrest⟩ := h
    have hhead : ∀ d, (c :: cs).head? = some d → d ≠ '-' := by
      intro d hd
      rw [← Option.some.inj hd]
      exact ne_hyphen_of_isAlnum hc
    rcases hrest with rfl | ⟨⟨hlength, hinner⟩, hlast⟩
    · refine ⟨fun d hd => ?_, List.cons_ne_nil c [], hhead, fun d hd => ?_, ?_⟩
      · rw [List.mem_singleton.mp hd]
        exact isLabelChar_of_isAlnum hc
      · rw [← Option.some.inj hd]
        exact ne_hyphen_of_isAlnum hc
      · exact Nat.le_add_left 1 62
    · rcases List.eq_nil_or_concat' cs with rfl | ⟨inner, d, rfl⟩
      · cases hlast
      rw [List.dropLast_concat, List.all_eq_true] at hinner
      rw [List.getLast?_concat] at hlast
      have hd : isAlnum d = true := hlast
      refine ⟨fun e he => ?_, List.cons_ne_nil _ _, hhead, fun e he => ?_, ?_⟩
      · rcases List.mem_cons.mp he with rfl | he
        · exact isLabelChar_of_isAlnum hc
        rcases List.mem_append.mp he with he | he
        · exact hinner e he
        · rw [List.mem_singleton.mp he]
          exact isLabelChar_of_isAlnum hd
      · rw [← List.cons_append, List.getLast?_concat] at he
        rw [← Option.some.inj he]
        exact ne_hyphen_of_isAlnum hd
      · rw [List.length_cons]
        omega

theorem lowerChars_of_isLabelChar (h : isLabelChar c = true) : lowerChars c = [c] := by
  have hkelvin : c ≠ '\u212a' := by
    rintro rfl
    exact absurd h (by decide)
  have hdotted : c ≠ '\u0130' := by
    rintro rfl
    exact absurd h (by decide)
  have hlower : c.toLower = c := by
    simp only [isLabelChar, isAlnum, Bool.or_eq_true, Bool.and_eq_true, decide_eq_true_eq, Char.le_def] at h
    unfold Char.toLower
    refine dif_neg fun hupper => ?_
    have hA : 'A'.val.toNat = 65 := rfl
    have hZ : 'Z'.val.toNat = 90 := rfl
    have ha : 'a'.val.toNat = 97 := rfl
    have h9 : '9'.val.toNat = 57 := rfl
    have hh : '-'.val.toNat = 45 := rfl
    simp only [UInt32.le_iff_toNat_le, ge_iff_le] at h hupper
    rcases h with (h | h) | rfl
    · omega
    · omega
    · omega
  rw [lowerChars, if_neg hkelvin, if_neg hdotted, hlower]

theorem isSpace_of_isLabelChar (h : isLabelChar c = true) : PyText.isSpace c = false := by
  simp only [isLabelChar, isAlnum, Bool.or_eq_true, Bool.and_eq_true, decide_eq_true_eq, Char.le_def,
    UInt32.le_iff_toNat_le] at h
  have ha : 'a'.val.toNat = 97 := rfl
  have hz : 'z'.val.toNat = 122 := rfl
  have h0 : '0'.val.toNat = 48 := rfl
  have h9 : '9'.val.toNat = 57 := rfl
  have hval : c.toNat = c.val.toNat := rfl
  simp only [PyText.isSpace, Bool.or_eq_false_iff, Bool.and_eq_false_iff, decide_eq_false_iff_not, beq_eq_false_iff_ne]
  rcases h with (h | h) | rfl
  · omega
  · omega
  · decide

theorem folded_ofList (h : ∀ c ∈ cs, isLabelChar c = true) : folded (String.ofList cs) = cs := by
  have hstrip : PyText.strip (String.ofList cs) = String.ofList cs := by
    refine PyText.strip_eq_self (fun c hc => ?_) fun c hc => ?_
    · rw [String.toList_ofList] at hc
      exact isSpace_of_isLabelChar (h c (List.mem_of_head? hc))
    · rw [String.toList_ofList] at hc
      exact isSpace_of_isLabelChar (h c (List.mem_of_getLast? hc))
  have hlower (ds : List Char) (hds : ∀ c ∈ ds, isLabelChar c = true) : ds.flatMap lowerChars = ds := by
    induction ds with
    | nil => rfl
    | cons c ds ih =>
      obtain ⟨hc, hds⟩ := List.forall_mem_cons.mp hds
      rw [List.flatMap_cons, lowerChars_of_isLabelChar hc, ih hds, List.singleton_append]
  rw [folded, hstrip, String.toList_ofList, hlower cs h]

theorem eq_newline_of_lowerChars (h : (lowerChars c).getLast? = some '\n') : c = '\n' := by
  unfold lowerChars at h
  split_ifs at h
  · exact absurd h (by decide)
  · exact absurd h (by decide)
  · rw [List.getLast?_singleton, Option.some.injEq] at h
    unfold Char.toLower at h
    split_ifs at h with hupper
    · -- a letter
      have hval := congrArg (fun d : Char => d.val.toNat) h
      have hZ : 'Z'.val.toNat = 90 := rfl
      have hshift : ('a'.val - 'A'.val).toNat = 32 := rfl
      have hnewline : '\n'.val.toNat = 10 := rfl
      simp only [ge_iff_le, UInt32.le_iff_toNat_le] at hupper
      simp only [UInt32.toNat_add, hshift, hnewline] at hval
      omega
    · exact h

theorem beforeDollar_folded (value : String) : PyText.beforeDollar (folded value) = folded value := by
  refine if_neg fun hlast => ?_
  rcases List.eq_nil_or_concat' (PyText.strip value).toList with hnil | ⟨inner, c, hconcat⟩
  · rw [folded, hnil] at hlast
    cases hlast
  · have hc : (lowerChars c).getLast? = some '\n' := by
      have hne : lowerChars c ≠ [] := by
        unfold lowerChars
        split_ifs <;> exact List.cons_ne_nil _ _
      rw [folded, hconcat, List.flatMap_append, List.flatMap_singleton, List.getLast?_append_of_ne_nil _ hne] at hlast
      exact hlast
    have hspace : PyText.isSpace c = false := by
      refine PyText.getLast?_strip (s := value) ?_
      rw [hconcat, List.getLast?_concat]
    rw [eq_newline_of_lowerChars hc] at hspace
    exact absurd hspace (by decide)

theorem hyphenate_eq_self (h : ∀ c ∈ cs, isLabelChar c = true) : hyphenate false cs = cs := by
  induction cs with
  | nil => rfl
  | cons c cs ih =>
    obtain ⟨hc, hcs⟩ := List.forall_mem_cons.mp h
    rw [hyphenate, if_pos hc, ih hcs]

theorem stripHyphens_eq_self (hhead : ∀ c, cs.head? = some c → c ≠ '-') (hlast : ∀ c, cs.getLast? = some c → c ≠ '-') :
    stripHyphens cs = cs := by
  have hkeep (ds : List Char) (hds : ∀ c, ds.head? = some c → c ≠ '-') : ds.dropWhile (· = '-') = ds := by
    cases ds with
    | nil => rfl
    | cons d ds => rw [List.dropWhile_cons, if_neg (by simpa using hds d rfl)]
  have hback := hkeep cs.reverse fun c hc => hlast c (by rwa [List.head?_reverse] at hc)
  rw [stripHyphens, hkeep cs hhead, hback, List.reverse_reverse]

theorem Label.sanitizeLabel (h : Label cs) : sanitizeLabel (String.ofList cs) = String.ofList cs := by
  rw [AdminTls.sanitizeLabel, folded_ofList h.all, hyphenate_eq_self h.all, stripHyphens_eq_self h.head h.last,
    List.take_of_length_le h.length]

theorem label_of_validateHostname {value : Option String} {name : String} (h : validateHostname value = .ok name) :
    Label name.toList := by
  cases value with
  | none => cases h
  | some value =>
    rw [validateHostname, beforeDollar_folded] at h
    split_ifs at h with hlabel
    rw [← Except.ok.inj h, String.toList_ofList]
    exact label_of_hostLabel hlabel

theorem candidates_of_label {name : String} (h : Label name.toList) (derived : String) :
    ∃ rest, hostnameCandidates name derived = name :: rest := by
  have hself : sanitizeLabel name = name := by
    have hsame := h.sanitizeLabel
    rwa [String.ofList_toList] at hsame
  have hne : name ≠ "" := fun hempty => h.ne (String.toList_eq_nil_iff.mpr hempty)
  have hfirst : addLabel [] name = [name] := by
    rw [addLabel, hself, if_neg hne, insertNew, if_neg List.not_mem_nil, List.nil_append]
  have hsecond : hostnameCandidates name derived = addLabel [name] derived := by
    rw [hostnameCandidates, distinctLabels, List.foldl_cons, hfirst, List.foldl_cons, List.foldl_nil]
  rw [hsecond, addLabel, insertNew]
  split_ifs
  · exact ⟨[], rfl⟩
  · exact ⟨[], rfl⟩
  · exact ⟨[AdminTls.sanitizeLabel derived], rfl⟩

end Label

/-- The certificate for the name: what is asked for, the run that makes it, and the next run, which keeps it. -/
structure Served (a : Args) (name : String) (w : World) : Prop where
  subject : a.host.toList.length ≤ maxCommonName
  alternatives : "DNS:" ++ name ∈ sanEntries a.candidates ∧ "DNS:" ++ (name ++ ".local") ∈ sanEntries a.candidates
  made : ∀ f : ℕ → Choice, (∀ n, (f n).Works) → ((ensure a).run journal f ⟨w, []⟩).1 = .ok true ∧
    Provisioned a.host ((ensure a).run journal f ⟨w, []⟩).2.state
  kept : ∀ f g : ℕ → Choice, (∀ n, (f n).Works) → (∀ n, (g n).Works) →
    ((ensure a).run journal g ⟨((ensure a).run journal f ⟨w, []⟩).2.state, []⟩).1 = .ok true ∧
      NoRequest ((ensure a).run journal g ⟨((ensure a).run journal f ⟨w, []⟩).2.state, []⟩).2.log

theorem returned {a : Args} {K : Prop} (hopenssl : a.openssl = none) (hlength : a.host.toList.length ≤ maxCommonName)
    {t : Journal} (ht : Ready a.host True K t) {f : ℕ → Choice} (hf : ∀ n, (f n).Works) :
    ((ensure a).run journal f t).1 = .ok true ∧ Late a.host K ((ensure a).run journal f t).2 := by
  have hend := (safe_ensure (fun _ _ hc => hc) (fun _ => trivial) (fun _ => ⟨hopenssl, hlength⟩) ht).run hf
  generalize (ensure a).run journal f t = out at hend ⊢
  obtain ⟨r, u⟩ := out
  cases r with
  | error e => exact absurd trivial hend
  | ok b => exact ⟨congrArg Except.ok hend.1, hend.2.1⟩

theorem Provisioned.isOpen {host : String} {w : World} (h : Provisioned host w) : Open w := by
  obtain ⟨g, names, hkey, hcert, -⟩ := h
  intro files
  rw [hkey, hcert]
  exact ⟨nofun, nofun⟩

theorem length_host {a : Args} {name : String} {rest : List String} (hcandidates : a.candidates = name :: rest) :
    a.host.toList.length = name.toList.length + 6 := by
  have hsuffix : ".local".toList.length = 6 := by decide
  rw [Args.host, hcandidates, commonName, String.toList_append, List.length_append, hsuffix]

theorem served_of_length {a : Args} {name : String} {rest : List String} (hopenssl : a.openssl = none)
    (hcandidates : a.candidates = name :: rest) (hlength : name.toList.length ≤ 58) {w : World} (hw : Labelled w)
    (hopen : Open w) : Served a name w := by
  have hsubject : a.host.toList.length ≤ maxCommonName := by
    rw [length_host hcandidates, maxCommonName]
    omega
  have hmem : name ∈ a.candidates := by
    rw [hcandidates]
    exact List.mem_cons_self
  have hentry {x : String} (hx : x = name ∨ x = name ++ ".local") : "DNS:" ++ x ∈ sanEntries a.candidates := by
    have hdns : x ∈ dnsNames a.candidates := mem_dnsNames.mpr (.inl ⟨name, hmem, hx⟩)
    exact List.mem_append_left _ (List.mem_map_of_mem hdns)
  have hfirst {f : ℕ → Choice} (hf : ∀ n, (f n).Works) :=
    returned (K := False) hopenssl hsubject (t := ⟨w, []⟩) ⟨hw, published_nil, fun _ => hopen, nofun⟩ hf
  refine ⟨hsubject, ⟨hentry (.inl rfl), hentry (.inr rfl)⟩, fun f hf => ⟨(hfirst hf).1, (hfirst hf).2.pair⟩, ?_⟩
  intro f g hf hg
  have hlate := (hfirst hf).2
  have hkept : Ready a.host True True ⟨((ensure a).run journal f ⟨w, []⟩).2.state, []⟩ :=
    ⟨hlate.labelled, published_nil, fun _ => hlate.pair.isOpen, fun _ => ⟨hlate.pair, fun _ _ _ _ => List.not_mem_nil⟩⟩
  have hsecond := returned hopenssl hsubject hkept hg
  exact ⟨hsecond.1, hsecond.2.noRequest trivial⟩

/-- A name that `validate_hostname` accepts and that is stored gets its certificate, and keeps it, exactly when it has
at most 58 characters. -/
theorem accepted_hostname_served_iff {value : Option String} {name : String} (hname : validateHostname value = .ok name)
    (derived : String) {w : World} (hw : Labelled w) (hopen : Open w) :
    Served { configured := name, derived := derived } name w ↔ name.toList.length ≤ 58 := by
  obtain ⟨rest, hfirst⟩ := candidates_of_label (label_of_validateHostname hname) derived
  have hcandidates : Args.candidates { configured := name, derived := derived } = name :: rest := by
    rw [Args.candidates, Args.raws, Option.getD_none, ← hostnameCandidates, hfirst]
  constructor
  · intro hserved
    have hsubject := hserved.subject
    rw [length_host hcandidates, maxCommonName] at hsubject
    omega
  · intro hlength
    exact served_of_length rfl hcandidates hlength hw hopen

theorem open_empty : Open {} := fun _ => ⟨nofun, nofun⟩

theorem camera_served : validateHostname (some " Camera ") = .ok "camera" ∧
    Served { configured := "camera", derived := "pibuddycam-1a2b3c" } "camera" {} := by
  have hname : validateHostname (some " Camera ") = .ok "camera" := by decide +kernel
  exact ⟨hname, (accepted_hostname_served_iff hname _ labelled_empty open_empty).mpr (by decide)⟩

/-- A name of 59 characters is accepted, the common name has 65, and the run ends with what `openssl` says about it. -/
theorem long_hostname_not_served :
    validateHostname (some (String.ofList (List.replicate 59 'a'))) = .ok (String.ofList (List.replicate 59 'a')) ∧
      (Args.host { configured := String.ofList (List.replicate 59 'a') }).toList.length = 65 ∧
      ((ensure { configured := String.ofList (List.replicate 59 'a') }).run journal
        (fun _ => { text := "string too long" }) ⟨{}, []⟩).1 =
          .error (.tls "openssl keypair generation failed: string too long") := by
  refine ⟨by decide +kernel, by decide +kernel, by decide +kernel⟩

end PiBuddyCam.AdminTls
