import PiBuddyCam.MigrationEffects

/-! The edits of the migrations find themselves done in what they have written, so that a migration run twice leaves
what it leaves when it is run once. -/
namespace PiBuddyCam.Migrations

/-! Texts with their line ends unified. -/

theorem cr_notMem_universalNewlines (cs : List Char) : '\r' ∉ universalNewlines cs := by
  induction cs using universalNewlines.induct with
  | case1 cs ih =>
    rw [universalNewlines, List.mem_cons]
    exact not_or.mpr ⟨by decide, ih⟩
  | case2 cs hcs ih =>
    rw [universalNewlines, List.mem_cons]
    · exact not_or.mpr ⟨by decide, ih⟩
    · exact hcs
  | case3 c cs hcrlf hcr ih =>
    rw [universalNewlines, List.mem_cons]
    · exact not_or.mpr ⟨fun h => hcr h.symm, ih⟩
    · exact hcrlf
    · exact hcr
  | case4 => exact List.not_mem_nil

theorem universalNewlines_cons {c : Char} (hc : c ≠ '\r') (cs : List Char) :
    universalNewlines (c :: cs) = c :: universalNewlines cs := by
  rw [universalNewlines]
  · exact fun _ h => absurd h hc
  · exact hc

theorem universalNewlines_eq_self {cs : List Char} (h : '\r' ∉ cs) : universalNewlines cs = cs := by
  induction cs with
  | nil => rfl
  | cons c cs ih =>
    obtain ⟨hc, hcs⟩ := not_or.mp (List.mem_cons.not.mp h)
    rw [universalNewlines_cons (Ne.symm hc), ih hcs]

theorem readText_eq_self {t : String} (h : '\r' ∉ t.toList) : readText t = t := by
  rw [readText, universalNewlines_eq_self h, String.ofList_toList]

theorem suffix_universalNewlines (cs : List Char) {rest : List Char} (h : '\r' ∉ rest) :
    rest <:+ universalNewlines (cs ++ '\n' :: rest) := by
  induction cs using universalNewlines.induct with
  | case1 cs ih => exact ih.trans (List.suffix_cons _ _)
  | case2 cs hcs ih =>
    cases cs with
    | nil =>
      -- the line end joins a carriage return before it
      have hjoined : universalNewlines ('\r' :: '\n' :: rest) = '\n' :: rest := by
        rw [universalNewlines, universalNewlines_eq_self h]
      rw [List.singleton_append, hjoined]
      exact List.suffix_cons _ _
    | cons c cs =>
      have hkept : universalNewlines ('\r' :: c :: (cs ++ '\n' :: rest)) =
          '\n' :: universalNewlines (c :: (cs ++ '\n' :: rest)) := by
        rw [universalNewlines]
        rintro cs' ⟨⟩
        exact hcs cs rfl
      rw [List.cons_append, List.cons_append, hkept]
      exact ih.trans (List.suffix_cons _ _)
  | case3 c cs hcrlf hcr ih =>
    rw [List.cons_append, universalNewlines_cons hcr]
    exact ih.trans (List.suffix_cons _ _)
  | case4 =>
    rw [List.nil_append, universalNewlines_cons (by decide), universalNewlines_eq_self h]
    exact List.suffix_cons _ _

/-! What a change leaves, it does not change again. -/

def Settles (change : Option Node → Option (Option Node)) : Prop := ∀ v w, change v = some w → change w = some w

theorem settles_mkdirChange : Settles mkdirChange := by
  intro v w h
  cases v with
  | none =>
    cases h
    rfl
  | some n =>
    unfold mkdirChange at h
    split at h
    · rename_i hdir
      cases h
      simp only [mkdirChange, hdir]
    · cases ‹some n = none›
    · cases h

theorem settles_saveChange (text : String) : Settles (saveChange text) := by
  intro v w h
  have hsaved : saveChange text (setLeaf v (.file (.text text))) = some (setLeaf v (.file (.text text))) := by
    simp only [saveChange, found_setLeaf, setLeaf_setLeaf]
  unfold saveChange at h
  split at h
  · cases h
  · rename_i hdev
    cases h
    simp only [saveChange, hdev]
  · cases h
    exact hsaved

theorem contains_includeText (t : String) : PyText.contains includeLine (readText (t ++ includeText)) = true := by
  have hline : includeText.toList = '\n' :: (includeLine ++ "\n").toList :=
    (congrArg String.toList String.append_assoc).trans String.toList_append
  have hcr : '\r' ∉ (includeLine ++ "\n").toList := by decide +kernel
  have hsuffix := suffix_universalNewlines t.toList hcr
  rw [← hline] at hsuffix
  rw [PyText.contains_iff, readText, String.toList_ofList, String.toList_append]
  exact (String.toList_append ▸ (List.prefix_append _ _).isInfix).trans hsuffix.isInfix

theorem contains_mainText : PyText.contains includeLine (readText mainText) = true := by decide +kernel

theorem settles_includeChange : Settles includeChange := by
  intro v w h
  have hmain : includeChange (setLeaf v (.file (.text mainText))) = some (setLeaf v (.file (.text mainText))) := by
    simp only [includeChange, found_setLeaf, contains_mainText, if_true]
  unfold includeChange at h
  split at h
  · rename_i t ht
    split_ifs at h with hline
    · cases h
      simp only [includeChange, ht, hline, if_true]
    · cases h
      simp only [includeChange, found_setLeaf, contains_includeText, if_true]
  · cases h
  · unfold saveChange at h
    split at h
    · cases h
    · rename_i hdev
      cases h
      simp only [includeChange, saveChange, hdev]
    · cases h
      exact hmain

def Edit.Settling (edit : String → Edit) : Prop :=
  ∀ content new, '\r' ∉ content.toList → edit content = .changed new → '\r' ∉ new.toList ∧ edit new = .done

theorem settles_editChange {edit : String → Edit} (hedit : Edit.Settling edit) : Settles (editChange edit) := by
  intro v w h
  unfold editChange at h
  split at h
  · rename_i t ht
    have hread : '\r' ∉ (readText t).toList := by
      rw [readText, String.toList_ofList]
      exact cr_notMem_universalNewlines _
    split at h
    · rename_i new hnew
      cases h
      obtain ⟨hcr, hdone⟩ := hedit _ _ hread hnew
      simp only [editChange, found_setLeaf, readText_eq_self hcr, hdone]
    · cases h
      simp only [editChange, ht]
  · cases h
  · rename_i htext hraw
    cases h
    unfold editChange
    split
    · exact absurd ‹_› (htext _)
    · exact absurd ‹_› (hraw _)
    · rfl

/-! The edits. -/

theorem cr_notMem_ofList {cs : List Char} (h : '\r' ∉ cs) : '\r' ∉ (String.ofList cs).toList := by
  rw [String.toList_ofList]
  exact h

theorem settling_swapText {old new : String} (hold : old.toList ≠ []) (hnew : '\r' ∉ new.toList) :
    Edit.Settling (swapText old new) := by
  intro content out hcontent hout
  unfold swapText at hout
  split_ifs at hout with hdone hthere
  cases hout
  refine ⟨cr_notMem_ofList fun hcr => ?_, ?_⟩
  · exact (PyText.mem_of_mem_replaceFrom 0 hcr).elim hcontent hnew
  · have hin : PyText.contains new (PyText.replace content old new) = true := by
      rw [PyText.contains_iff, PyText.replace, String.toList_ofList]
      exact PyText.infix_replaceFrom hold ((PyText.contains_iff _ _).mp hthere)
    rw [swapText, if_pos hin]

theorem replaceOnce_split {content old new : String} (hold : old.toList ≠ []) (h : PyText.contains old content = true)
    (hcontent : '\r' ∉ content.toList) (hnew : '\r' ∉ new.toList) :
    ∃ before behind, content.toList = before ++ old.toList ++ behind ∧
      (PyText.replaceOnce content old new).toList = before ++ new.toList ++ behind ∧
      '\r' ∉ (PyText.replaceOnce content old new).toList := by
  obtain ⟨before, behind, hsplit, hreplaced⟩ :=
    @PyText.replaceFirst_split _ new.toList _ hold ((PyText.contains_iff _ _).mp h)
  have hout : (PyText.replaceOnce content old new).toList = before ++ new.toList ++ behind := by
    rw [PyText.replaceOnce, String.toList_ofList, hreplaced]
  refine ⟨before, behind, hsplit, hout, ?_⟩
  rw [hsplit] at hcontent
  rw [hout]
  simp only [List.mem_append, not_or] at hcontent ⊢
  exact ⟨⟨hcontent.1.1, hnew⟩, hcontent.2⟩

theorem settling_addRuntimeDirectory : Edit.Settling addRuntimeDirectory := by
  intro content out hcontent hout
  unfold addRuntimeDirectory at hout
  split_ifs at hout with hdone hthere
  cases hout
  have hcr : '\r' ∉ runtimeAddition.toList := by decide +kernel
  have hmark : "RuntimeDirectory=pibuddycam".toList <:+: runtimeAddition.toList := by decide +kernel
  obtain ⟨before, behind, -, hout, hfree⟩ := replaceOnce_split (by decide) hthere hcontent hcr
  refine ⟨hfree, ?_⟩
  have hin : PyText.contains "RuntimeDirectory=pibuddycam" (PyText.replaceOnce content runtimeMarker runtimeAddition) =
      true := by
    rw [PyText.contains_iff, hout]
    exact hmark.trans ⟨before, behind, rfl⟩
  rw [addRuntimeDirectory, if_pos hin]

theorem verbAdditions_spec : ∀ v ∈ verbAdditions,
    (v.1 ++ ")").toList <:+: v.2.toList ∧ '\r' ∉ v.2.toList ∧ ' ' ∉ (v.1 ++ ")").toList := by
  decide +kernel

theorem toList_missingVerbs (content : String) : (missingVerbs content).toList =
    (verbAdditions.filter (fun v => !hasVerb content v.1)).flatMap (fun v => v.2.toList) := by
  rw [missingVerbs, String.toList_ofList]

theorem settling_addVerbs : Edit.Settling addVerbs := by
  intro content out hcontent hout
  unfold addVerbs at hout
  split_ifs at hout with hdone hthere
  cases hout
  have hcr : '\r' ∉ (missingVerbs content ++ fallbackMarker).toList := by
    rw [String.toList_append, List.mem_append, toList_missingVerbs]
    rintro (hmem | hmem)
    · obtain ⟨v, hv, hcr⟩ := List.mem_flatMap.mp hmem
      exact (verbAdditions_spec v (List.mem_filter.mp hv).1).2.1 hcr
    · exact absurd hmem (by decide +kernel)
  obtain ⟨before, behind, hsplit, hout, hfree⟩ := replaceOnce_split (by decide) hthere hcontent hcr
  rw [String.toList_append] at hout
  refine ⟨hfree, ?_⟩
  have hall : verbAdditions.all (fun v => hasVerb (PyText.replaceOnce content fallbackMarker
      (missingVerbs content ++ fallbackMarker)) v.1) = true := by
    rw [List.all_eq_true]
    intro v hv
    obtain ⟨hnamed, _, hblank⟩ := verbAdditions_spec v hv
    rw [hasVerb, PyText.contains_iff, hout]
    by_cases hhas : hasVerb content v.1 = true
    · -- the marker starts with a blank, which no verb has in it
      have hmarker : fallbackMarker.toList = ' ' :: fallbackMarker.toList.tail := by
        rw [fallbackMarker, String.toList_ofList]
        rfl
      rw [hasVerb, PyText.contains_iff, hsplit, hmarker, List.append_assoc, List.cons_append] at hhas
      rcases PyText.infix_of_notMem hblank hhas with hbefore | hbehind
      · exact hbefore.trans ⟨[], _, by rw [List.nil_append, List.append_assoc]⟩
      · have htail : fallbackMarker.toList.tail ++ behind <:+ fallbackMarker.toList ++ behind := by
          rw [hmarker]
          exact List.suffix_cons _ _
        refine hbehind.trans (htail.isInfix.trans ⟨before ++ (missingVerbs content).toList, [], ?_⟩)
        simp only [List.append_assoc, List.append_nil]
    · have hmem : v ∈ verbAdditions.filter (fun v => !hasVerb content v.1) :=
        List.mem_filter.mpr ⟨hv, by rw [Bool.not_eq_true']; exact Bool.eq_false_iff.mpr hhas⟩
      have hblock : v.2.toList <:+: (missingVerbs content).toList := by
        rw [toList_missingVerbs, List.flatMap_def]
        exact List.infix_of_mem_flatten (List.mem_map_of_mem hmem)
      refine hnamed.trans (hblock.trans ⟨before, fallbackMarker.toList ++ behind, ?_⟩)
      simp only [List.append_assoc]
  rw [addVerbs, if_pos hall]

/-! The migrations. -/

def Idempotent (p : Run (Except String Bool)) : Prop := ∀ d, Ensures p (fun _ e => Ensures p (fun _ u => u = e) e) d

variable {stages : List Stage}

theorem Leaves.idempotent {p : Run (Except String Bool)} (h : Leaves p stages)
    (hagree : Agree stages) : Idempotent p := by
  intro d
  apply (h d).post
  rintro _ e rfl
  apply (h _).post
  rintro _ u rfl
  simp only [Device.withRoot, runStages_runStages hagree]

theorem agree_singleton {path : String} {change : Option Node → Option (Option Node)} (h : Settles change) :
    Agree [⟨path, change⟩] := by
  intro f hf g hg _
  rw [List.mem_singleton.mp hf, List.mem_singleton.mp hg]
  exact h

theorem idempotent_editFile (path : String) {edit : String → Edit} (reload : Bool) (hedit : Edit.Settling edit) :
    Idempotent (editFile path edit reload) :=
  (leaves_editFile path edit reload).idempotent (agree_singleton (settles_editChange hedit))

theorem agree_of_table (table : String → Option Node → Option (Option Node))
    (htable : ∀ path, Settles (table path)) (h : ∀ f ∈ stages, f.change = table f.path) : Agree stages := by
  intro f hf g hg hpath v w hw
  rw [h f hf] at hw
  rw [h g hg, ← hpath]
  exact htable _ v w hw

theorem idempotent_createMntSdcard : Idempotent createMntSdcard := by
  have hdoes : Does createMntSdcard (["/mnt", "/mnt/sdcard"].map (⟨·, mkdirChange⟩) ++ []) := by
    apply (does_makedirs _).andThen
    intro _ d c _
    exact ⟨trivial, rfl, rfl⟩
  apply hdoes.leaves.idempotent
  apply agree_of_table (fun _ => mkdirChange) fun _ => settles_mkdirChange
  intro f hf
  rw [List.append_nil] at hf
  obtain ⟨path, _, rfl⟩ := List.mem_map.mp hf
  rfl

def sambaChange (path : String) : Option Node → Option (Option Node) :=
  if path = shareConf then saveChange shareText
  else if path = mainConf then includeChange
  else if path = tmpfiles then saveChange tmpfilesText
  else mkdirChange

def sambaStage (path : String) : Stage := ⟨path, sambaChange path⟩

theorem settles_sambaChange (path : String) : Settles (sambaChange path) := by
  unfold sambaChange
  split_ifs
  · exact settles_saveChange _
  · exact settles_includeChange
  · exact settles_saveChange _
  · exact settles_mkdirChange

theorem does_installSambaConfig : Does installSambaConfig
    (["/etc", "/etc/samba", shareConf, mainConf, "/etc", "/etc/tmpfiles.d", tmpfiles].map sambaStage) := by
  have hdirs (a b : String) (ha : sambaChange a = mkdirChange) (hb : sambaChange b = mkdirChange) :
      Does (makedirs [a, b]) [sambaStage a, sambaStage b] := by
    rw [sambaStage, sambaStage, ha, hb]
    exact does_makedirs [a, b]
  have hshare : Does (save shareConf shareText) [sambaStage shareConf] := does_save _ _
  have hmain : Does includeShare [sambaStage mainConf] := does_includeShare
  have htmp : Does (save tmpfiles tmpfilesText) [sambaStage tmpfiles] := does_save _ _
  exact (hdirs "/etc" "/etc/samba" rfl rfl).andThen fun _ => hshare.andThen fun _ => hmain.andThen fun _ =>
    (hdirs "/etc" "/etc/tmpfiles.d" rfl rfl).andThen fun _ => htmp.andThen fun _ => does_pure true

theorem idempotent_installSambaConfig : Idempotent installSambaConfig := by
  apply does_installSambaConfig.leaves.idempotent
  apply agree_of_table sambaChange settles_sambaChange
  intro f hf
  obtain ⟨path, _, rfl⟩ := List.mem_map.mp hf
  rfl

/-! Masking a unit, which is no list of stages: the unit is removed before its link is made. -/

def linkChange (v : Option Node) : Option (Option Node) :=
  if isMask v then some v
  else match v with
    | none => some (some (.link "/dev/null" (some .device)))
    | some _ => none

def maskStage (path : String) : Stage := ⟨path, if path = consoleSetup then linkChange else mkdirChange⟩

def maskStages : List Stage := ["/etc", "/etc/systemd", "/etc/systemd/system", consoleSetup].map maskStage

def maskEffect (r : Root) : Root :=
  if isMask (r consoleSetup) then r
  else match r consoleSetup with
    | some (.leaf .dir) => r
    | some (.leaf _) => (runStages maskStages (r.put consoleSetup none)).2
    | _ => (runStages maskStages r).2

theorem linkChange_cases {v w : Option Node} (h : linkChange v = some w) : isMask w = true := by
  unfold linkChange at h
  split_ifs at h with hmask
  · exact Option.some.inj h ▸ hmask
  · split at h
    · exact Option.some.inj h ▸ rfl
    · cases h

theorem maskStages_again (r : Root) : runStages maskStages (runStages maskStages r).2 = runStages maskStages r := by
  apply runStages_runStages
  apply agree_of_table (fun path => (maskStage path).change)
  · intro path v w hw
    by_cases hpath : path = consoleSetup
    · simp only [maskStage, if_pos hpath] at hw ⊢
      exact if_pos (linkChange_cases hw)
    · simp only [maskStage, if_neg hpath] at hw ⊢
      exact settles_mkdirChange v w hw
  · intro f hf
    obtain ⟨path, _, rfl⟩ := List.mem_map.mp hf
    rfl

/-- The unit stays as it is until it is masked. -/
theorem maskStages_unit (r : Root) : (runStages maskStages r).2 consoleSetup = r consoleSetup ∨
    isMask ((runStages maskStages r).2 consoleSetup) = true := by
  apply runStages_inv (P := fun v => v = r consoleSetup ∨ isMask v = true) _ (Or.inl rfl)
  intro g hg hpath v w _ hw
  obtain ⟨path, _, rfl⟩ := List.mem_map.mp hg
  obtain rfl : path = consoleSetup := hpath
  exact Or.inr (linkChange_cases hw)

theorem does_maskUnit {d : Device} (h : isMask (d.root consoleSetup) = false) : DoesAt maskUnit maskStages d := by
  have hdirs : Does (makedirs ["/etc", "/etc/systemd", "/etc/systemd/system"])
      (["/etc", "/etc/systemd", "/etc/systemd/system"].map maskStage) := does_makedirs _
  have hlink (d : Device) (h : isMask (d.root consoleSetup) = false) :
      DoesAt (symlink "/dev/null" consoleSetup) [⟨consoleSetup, linkChange⟩] d := by
    intro c hc
    refine ⟨trivial, stage_spec (c := c) ?_⟩
    simp only [oneStage, linkChange, h, Bool.false_eq_true, if_false]
    unfold Root.symlink
    cases hunit : d.root consoleSetup with
    | none => exact attempt_eq _ _ hc
    | some n => rfl
  apply (hdirs d).andThen
  intro _
  apply (hlink _ _).andThen fun _ => does_pure true _
  apply runStages_inv (P := fun v => isMask v = false) _ h
  intro g hg hpath
  obtain ⟨path, hmem, rfl⟩ := List.mem_map.mp hg
  have hne : ∀ path ∈ ["/etc", "/etc/systemd", "/etc/systemd/system"], path ≠ consoleSetup := by decide
  exact absurd hpath (hne path hmem)

theorem ensures_maskConsoleSetup (d : Device) :
    Ensures maskConsoleSetup (fun _ e => e = d.withRoot (maskEffect d.root)) d := by
  have hunit (d : Device) (h : isMask (d.root consoleSetup) = false) :
      Ensures maskUnit (fun _ e => e = d.withRoot (runStages maskStages d.root).2) d :=
    (does_maskUnit h).post fun _ _ he => he.1
  intro c _
  refine ⟨trivial, ?_⟩
  change Ensures (if isMask (d.root consoleSetup) = true then pure (.ok true) else
    if ((found (d.root consoleSetup)).isSome && !isLink (d.root consoleSetup)) = true then
      (remove consoleSetup).andThen fun _ => maskUnit else maskUnit) _ d
  unfold maskEffect
  by_cases hmask : isMask (d.root consoleSetup) = true
  · rw [if_pos hmask, if_pos hmask]
    exact rfl
  rw [if_neg hmask, if_neg hmask]
  rw [Bool.not_eq_true] at hmask
  cases hnode : d.root consoleSetup with
  | none => exact hunit d hmask
  | some n =>
    cases n with
    | link target behind =>
      rw [isLink, Bool.not_true, Bool.and_false, if_neg Bool.false_ne_true]
      exact hunit d hmask
    | leaf l =>
      simp only [isLink, found, Option.isSome_some, Bool.not_false, Bool.and_self, if_true]
      intro c hc
      refine ⟨trivial, ?_⟩
      have hstep : device.step d (.remove consoleSetup) c = d.onRoot (d.root.remove c consoleSetup) := rfl
      have hremoved := hunit (d.withRoot (d.root.put consoleSetup none)) (congrArg isMask (put_self d.root consoleSetup none))
      rw [hstep, Root.remove, hnode]
      cases l with
      | dir => exact rfl
      | file content =>
        rw [attempt_eq _ _ hc]
        exact hremoved
      | device =>
        rw [attempt_eq _ _ hc]
        exact hremoved

theorem maskEffect_masked {r : Root} (h : ∀ l, r consoleSetup ≠ some (.leaf l)) :
    maskEffect (runStages maskStages r).2 = (runStages maskStages r).2 := by
  unfold maskEffect
  by_cases hmask : isMask ((runStages maskStages r).2 consoleSetup) = true
  · rw [if_pos hmask]
  rw [if_neg hmask, (maskStages_unit r).resolve_right hmask]
  cases hnode : r consoleSetup with
  | none => exact congrArg Prod.snd (maskStages_again r)
  | some n =>
    cases n with
    | leaf l => exact absurd hnode (h l)
    | link target behind => exact congrArg Prod.snd (maskStages_again r)

theorem maskEffect_maskEffect (r : Root) : maskEffect (maskEffect r) = maskEffect r := by
  have hcases : maskEffect r = r ∨
      ∃ r', (∀ l, r' consoleSetup ≠ some (.leaf l)) ∧ maskEffect r = (runStages maskStages r').2 := by
    unfold maskEffect
    split_ifs
    · exact Or.inl rfl
    · split
      · exact Or.inl rfl
      · exact Or.inr ⟨_, fun l => by rw [put_self]; exact nofun, rfl⟩
      · rename_i hleaf
        exact Or.inr ⟨r, hleaf, rfl⟩
  rcases hcases with hsame | ⟨r', hleaf, hrun⟩
  · rw [hsame, hsame]
  · rw [hrun]
    exact maskEffect_masked hleaf

theorem idempotent_maskConsoleSetup : Idempotent maskConsoleSetup := by
  intro d
  apply (ensures_maskConsoleSetup d).post
  rintro _ e rfl
  apply (ensures_maskConsoleSetup _).post
  rintro _ u rfl
  simp only [Device.withRoot, maskEffect_maskEffect]

theorem idempotent_apply : ∀ m ∈ migrations, Idempotent m.apply := by
  simp only [migrations, List.forall_mem_cons]
  refine ⟨idempotent_createMntSdcard, idempotent_installSambaConfig, idempotent_maskConsoleSetup, ?_, ?_, ?_, ?_,
    List.forall_mem_nil _⟩
  · exact idempotent_editFile _ true (settling_swapText (by decide +kernel) (by decide +kernel))
  · exact idempotent_editFile _ false (settling_swapText (by decide +kernel) (by decide +kernel))
  · exact idempotent_editFile _ true settling_addRuntimeDirectory
  · exact idempotent_editFile _ false settling_addVerbs

end PiBuddyCam.Migrations
