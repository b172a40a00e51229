import PiBuddyCam.ConfigDeviceText

/-! The secrets document in text, and the round trip of both documents. -/
namespace PiBuddyCam.Config

open TomlText

namespace Secrets

def present (l : List (String × Option String)) : List (String × String) :=
  l.filterMap fun e => e.2.map fun v => (e.1, v)

variable (s : Secrets)

def sections : List (String × List (String × Option String)) :=
  [("prusa", [("token", s.token)]), ("mqtt", [("username", s.username), ("password", s.password)]),
    ("wifi", [("psk", s.psk)]), ("admin", [("password_hash", s.passwordHash)])]

def tables : List (String × List (String × String)) :=
  (s.sections.map fun t => (t.1, present t.2)).filter fun t => !t.2.isEmpty

def document : Document := documentOf [] (s.tables.map fun t => (t.1, strPairs t.2))

theorem sections_keys : s.sections.map (fun t => (t.1, t.2.map Prod.fst)) = secretTables := rfl

theorem sections_names : (s.sections.map Prod.fst).Nodup := by
  change List.Nodup ["prusa", "mqtt", "wifi", "admin"]
  decide

theorem section_nodup : ∀ t ∈ s.sections, (t.2.map Prod.fst).Nodup := by
  intro t ht
  have hmem : (t.1, t.2.map Prod.fst) ∈ secretTables := s.sections_keys ▸ List.mem_map_of_mem ht
  have hall : ∀ t ∈ secretTables, t.2.Nodup := by decide
  exact hall _ hmem

theorem present_keys (l : List (String × Option String)) : ((present l).map Prod.fst).Sublist (l.map Prod.fst) := by
  induction l with
  | nil => exact List.Sublist.refl _
  | cons e l ih =>
    obtain ⟨key, value⟩ := e
    cases value with
    | none => exact ih.cons key
    | some v => exact ih.cons_cons key

variable {l : List (String × Option String)}

theorem present_nodup (hl : (l.map Prod.fst).Nodup) :
    ((strPairs (present l)).map Prod.fst).Nodup := by
  rw [keys_strPairs]
  exact hl.sublist (present_keys l)

variable {e : String × Option String}

theorem get?_present (hl : (l.map Prod.fst).Nodup)
    (he : e ∈ l) : (OrderedDict.ofList (strPairs (present l))).get? e.1 = e.2.map .str := by
  apply Option.ext
  intro v
  rw [OrderedDict.get?_eq_some_iff, OrderedDict.entries_ofList _ (present_nodup hl), strPairs, List.mem_map]
  constructor
  · rintro ⟨p, hp, hpv⟩
    obtain ⟨f, hf, hfp⟩ := List.mem_filterMap.mp hp
    obtain ⟨value, hvalue, rfl⟩ := Option.map_eq_some_iff.mp hfp
    obtain ⟨hkey, hv⟩ := Prod.mk.inj hpv
    have hsame : f = e := List.inj_on_of_nodup_map hl hf he hkey
    rw [← hsame, hvalue, Option.map_some, hv]
  · intro hv
    obtain ⟨value, hvalue, rfl⟩ := Option.map_eq_some_iff.mp hv
    exact ⟨(e.1, value), List.mem_filterMap.mpr ⟨e, he, by rw [hvalue, Option.map_some]⟩, rfl⟩

theorem tables_names : (s.tables.map Prod.fst).Nodup := by
  have hsub : (s.tables.map Prod.fst).Sublist (s.sections.map Prod.fst) := by
    have hfilter : s.tables.Sublist (s.sections.map fun t => (t.1, present t.2)) := List.filter_sublist
    have hmap := hfilter.map Prod.fst
    rwa [List.map_map] at hmap
  exact s.sections_names.sublist hsub

theorem tables_nodup : ∀ t ∈ s.tables, ((strPairs t.2).map Prod.fst).Nodup := by
  intro t ht
  obtain ⟨u, hu, rfl⟩ := List.mem_map.mp (List.mem_filter.mp ht).1
  exact present_nodup (s.section_nodup u hu)

theorem entries_document :
    s.document.entries = s.tables.map fun t => (t.1, .table (.ofList (strPairs t.2))) := by
  have hnames : (documentEntries [] (s.tables.map fun t => (t.1, strPairs t.2))) =
      s.tables.map fun t => (t.1, .table (.ofList (strPairs t.2))) := by
    rw [documentEntries, List.map_nil, List.nil_append, List.map_map]
    rfl
  rw [document, documentOf, hnames, OrderedDict.entries_ofList]
  rw [List.map_map]
  exact s.tables_names

variable {t : String × List (String × Option String)}

theorem tableOf_document (ht : t ∈ s.sections) :
    tableOf s.document t.1 = .ofList (strPairs (present t.2)) := by
  by_cases hempty : present t.2 = []
  · -- no entry of the document has this name
    have hnone : s.document.get? t.1 = none := by
      rw [OrderedDict.get?_eq_none_iff, OrderedDict.keys, entries_document, List.map_map, List.mem_map]
      rintro ⟨u, hu, hname⟩
      obtain ⟨hmem, hfull⟩ := List.mem_filter.mp hu
      obtain ⟨w, hw, rfl⟩ := List.mem_map.mp hmem
      have hsame : w = t := List.inj_on_of_nodup_map s.sections_names hw ht hname
      rw [hsame] at hfull
      simp [hempty] at hfull
    rw [tableOf, hnone, hempty]
    rfl
  · have hget : s.document.get? t.1 = some (.table (.ofList (strPairs (present t.2)))) := by
      rw [OrderedDict.get?_eq_some_iff, entries_document]
      apply List.mem_map.mpr
      refine ⟨(t.1, present t.2), List.mem_filter.mpr ⟨List.mem_map_of_mem ht, ?_⟩, rfl⟩
      simpa using hempty
    rw [tableOf, hget]

theorem checkSecretsKeys_document : checkSecretsKeys s.document = .ok () := by
  have hcheck (name : String) (allowed : List String) (entries : OrderedDict String Value)
      (hname : name ≠ "schema_version") (hlookup : secretTables.lookup name = some allowed)
      (hsubs : ∀ sub ∈ entries.keys, sub ∈ allowed) : checkSecretsKey (name, .table entries) = .ok () := by
    simp only [checkSecretsKey, if_neg hname, hlookup]
    exact checkSubkeys_eq_ok hsubs
  have htables : ∀ t ∈ secretTables, t.1 ≠ "schema_version" ∧ secretTables.lookup t.1 = some t.2 := by decide
  rw [checkSecretsKeys, entries_document]
  apply forM_eq_ok
  intro e he
  obtain ⟨t, ht, rfl⟩ := List.mem_map.mp he
  obtain ⟨u, hu, rfl⟩ := List.mem_map.mp (List.mem_filter.mp ht).1
  have hkeys := s.section_nodup u hu
  obtain ⟨hname, hlookup⟩ := htables (u.1, u.2.map Prod.fst) (s.sections_keys ▸ List.mem_map_of_mem hu)
  apply hcheck u.1 (u.2.map Prod.fst) _ hname hlookup
  intro sub hsub
  rw [OrderedDict.keys, OrderedDict.entries_ofList _ (present_nodup hkeys), keys_strPairs] at hsub
  exact (present_keys u.2).subset hsub

theorem secret_document (ht : t ∈ s.sections)
    (he : e ∈ t.2) : Host.secret s.document t.1 e.1 = .ok e.2 := by
  rw [Host.secret, s.tableOf_document ht, entry, get?_present (s.section_nodup t ht) he]
  cases e.2 with
  | none => rfl
  | some v => rfl

theorem validateSecrets_document (h : Host) : h.validateSecrets s.document = .ok s := by
  have hversion : s.document.get? "schema_version" = none := by
    rw [OrderedDict.get?_eq_none_iff, OrderedDict.keys, entries_document, List.map_map, List.mem_map]
    rintro ⟨u, hu, hname⟩
    obtain ⟨w, hw, rfl⟩ := List.mem_map.mp (List.mem_filter.mp hu).1
    have hnames : ∀ t ∈ secretTables, t.1 ≠ "schema_version" := by decide
    exact hnames _ (s.sections_keys ▸ List.mem_map_of_mem hw) hname
  unfold Host.validateSecrets
  rw [scalar, hversion]
  apply Except.bind_eq_ok (a := 1) rfl
  apply Except.bind_eq_ok s.checkSecretsKeys_document
  apply Except.bind_eq_ok (s.secret_document (.head _) (.head _))
  apply Except.bind_eq_ok (s.secret_document (.tail _ (.head _)) (.head _))
  apply Except.bind_eq_ok (s.secret_document (.tail _ (.head _)) (.tail _ (.head _)))
  apply Except.bind_eq_ok (s.secret_document (.tail _ (.tail _ (.head _))) (.head _))
  apply Except.bind_eq_ok (s.secret_document (.tail _ (.tail _ (.tail _ (.head _)))) (.head _))
  rfl

def block (t : String × List (String × String)) : List String :=
  ("[" ++ t.1 ++ "]") :: t.2.map fun e => pairLine e.1 (quoted e.2)

theorem secretLines_document (ht : t ∈ s.sections) :
    secretLines s.document (t.1, t.2.map Prod.fst) =
      .ok (if (present t.2).isEmpty then [] else block (t.1, present t.2)) := by
  have hkeys : ((t.2.map Prod.fst).filterMap fun key =>
      ((OrderedDict.ofList (strPairs (present t.2))).get? key).map fun v => (key, v)) = strPairs (present t.2) := by
    have hpresent : strPairs (present t.2) = t.2.filterMap fun e => e.2.map fun v => (e.1, Value.str v) := by
      rw [strPairs, present, List.map_filterMap]
      simp only [Option.map_map, Function.comp_def]
    rw [List.filterMap_map]
    conv_rhs => rw [hpresent]
    apply List.filterMap_congr
    intro e he
    rw [Function.comp_apply, get?_present (s.section_nodup t ht) he, Option.map_map]
    rfl
  have hlines : (strPairs (present t.2)).mapM (fun e => do
      pure (pairLine e.1 (← tomlStr (.str (← expectStr (t.1 ++ "." ++ e.1) e.2))))) =
      (.ok ((present t.2).map fun e => pairLine e.1 (quoted e.2)) : Checked (List String)) := by
    rw [strPairs, List.mapM_map]
    exact List.mapM_pure
  unfold secretLines
  rw [s.tableOf_document ht]
  dsimp only
  rw [hkeys]
  apply Except.bind_eq_ok hlines
  cases present t.2 with
  | nil => rfl
  | cons e l => rfl

def text : String :=
  if s.tables.map block = [] then "" else "\n\n".intercalate ((s.tables.map block).map "\n".intercalate) ++ "\n"

theorem blocks_filter (l : List (String × List (String × Option String))) :
    (l.map fun t => if (present t.2).isEmpty then [] else block (t.1, present t.2)).filter (· ≠ []) =
      ((l.map fun t => (t.1, present t.2)).filter fun t => !t.2.isEmpty).map block := by
  induction l with
  | nil => rfl
  | cons t l ih =>
    rw [List.map_cons, List.map_cons, List.filter_cons, List.filter_cons, ih]
    cases hempty : (present t.2).isEmpty with
    | false => simp [block]
    | true => simp

theorem dumpsSecrets_document : dumpsSecrets s.document = .ok s.text := by
  have hblocks : secretTables.mapM (secretLines s.document) =
      .ok (s.sections.map fun t => if (present t.2).isEmpty then [] else block (t.1, present t.2)) := by
    rw [← s.sections_keys, List.mapM_map]
    exact mapM_eq_ok fun t ht => s.secretLines_document ht
  apply Except.bind_eq_ok hblocks
  rw [blocks_filter]
  rfl

theorem intercalate_blocks (blocks : List (List String)) (hne : blocks ≠ []) (hblocks : ∀ b ∈ blocks, b ≠ []) :
    "\n\n".intercalate (blocks.map "\n".intercalate) = "\n".intercalate (blocks.flatMap ("" :: ·)).tail := by
  induction blocks with
  | nil => exact absurd rfl hne
  | cons b blocks ih =>
    cases blocks with
    | nil => simp
    | cons c rest =>
      have hb : b ≠ [] := hblocks b List.mem_cons_self
      have htail := ih (List.cons_ne_nil c rest) fun d hd => hblocks d (List.mem_cons_of_mem b hd)
      have hc : c ++ rest.flatMap ("" :: ·) ≠ [] := by simp [hblocks c (by simp)]
      have hflat : (c :: rest).flatMap ("" :: ·) = "" :: (c ++ rest.flatMap ("" :: ·)) := by simp
      rw [hflat, List.tail_cons] at htail
      rw [List.map_cons, String.intercalate_cons_of_ne_nil (by simp), htail, List.flatMap_cons, hflat, List.cons_append,
        List.tail_cons, String.intercalate_append_of_ne_nil hb (List.cons_ne_nil _ _),
        String.intercalate_cons_of_ne_nil hc, String.empty_append]
      have htwo : "\n\n" = "\n" ++ "\n" := by decide
      simp only [htwo, String.append_assoc]

theorem block_read (t : String × List (String × String)) (hname : BareName t.1) (hkeys : ∀ e ∈ t.2, BareName e.1) :
    List.Forall₂ LineOf ("" :: block t) (tableLines (t.1, strPairs t.2)) := by
  have hpairs : List.Forall₂ LineOf (t.2.map fun e => pairLine e.1 (quoted e.2)) (pairLines (strPairs t.2)) := by
    rw [pairLines, strPairs, List.map_map, List.forall₂_map_left_iff, List.forall₂_map_right_iff, List.forall₂_same]
    intro e he
    exact lineOf_pair (hkeys e he) (written_quoted e.2)
  exact .cons lineOf_blank (.cons (lineOf_header hname rfl) hpairs)

theorem blocks_read (tables : List (String × List (String × String)))
    (hnames : ∀ t ∈ tables, BareName t.1 ∧ ∀ e ∈ t.2, BareName e.1) :
    List.Forall₂ LineOf ((tables.map block).flatMap ("" :: ·))
      ((tables.map fun t => (t.1, strPairs t.2)).flatMap tableLines) := by
  induction tables with
  | nil => exact .nil
  | cons t tables ih =>
    obtain ⟨hname, hkeys⟩ := hnames t List.mem_cons_self
    rw [List.map_cons, List.map_cons, List.flatMap_cons, List.flatMap_cons]
    exact List.rel_append (block_read t hname hkeys) (ih fun u hu => hnames u (List.mem_cons_of_mem t hu))

theorem tables_bare : ∀ t ∈ s.tables, BareName t.1 ∧ ∀ e ∈ t.2, BareName e.1 := by
  have hall : ∀ t ∈ secretTables, ∀ name ∈ t.1 :: t.2, BareName name := by decide
  intro t ht
  obtain ⟨u, hu, rfl⟩ := List.mem_map.mp (List.mem_filter.mp ht).1
  have hnames := hall (u.1, u.2.map Prod.fst) (s.sections_keys ▸ List.mem_map_of_mem hu)
  refine ⟨hnames u.1 List.mem_cons_self, fun e he => ?_⟩
  have hkey : e.1 ∈ u.2.map Prod.fst := (present_keys u.2).subset (List.mem_map_of_mem he)
  exact hnames e.1 (List.mem_cons_of_mem u.1 hkey)

theorem read_text : TomlText.read s.text = some s.document := by
  have hlines := blocks_read s.tables s.tables_bare
  have hkeys : ∀ t ∈ s.tables.map fun t => (t.1, strPairs t.2), (t.2.map Prod.fst).Nodup := by
    intro t ht
    obtain ⟨u, hu, rfl⟩ := List.mem_map.mp ht
    exact s.tables_nodup u hu
  have hsteps := steps_document [] (s.tables.map fun t => (t.1, strPairs t.2))
    (by simpa [Function.comp_def] using s.tables_names) hkeys
  rw [pairLines, List.map_nil, List.nil_append] at hsteps
  unfold text document
  cases htables : s.tables with
  | nil => rfl
  | cons t tables =>
    rw [htables] at hlines hsteps
    have hne : (t :: tables).map block ≠ [] := by simp
    have hblocks : ∀ b ∈ (t :: tables).map block, b ≠ [] := by
      intro b hb
      obtain ⟨u, -, rfl⟩ := List.mem_map.mp hb
      exact List.cons_ne_nil _ _
    rw [if_neg hne, intercalate_blocks _ hne hblocks]
    -- the empty line in front of the first block is not written, and reading it changes nothing
    obtain ⟨texts, htexts⟩ : ∃ texts, ((t :: tables).map block).flatMap ("" :: ·) = "" :: texts := ⟨_, rfl⟩
    obtain ⟨lines, hrest⟩ : ∃ lines, ((t :: tables).map fun t => (t.1, strPairs t.2)).flatMap tableLines =
        Line.blank :: lines := ⟨_, rfl⟩
    rw [htexts, hrest] at hlines
    rw [hrest, List.foldlM_cons] at hsteps
    have htail : List.Forall₂ LineOf texts lines := by
      cases hlines with
      | cons _ h => exact h
    have htextsNe : texts ≠ [] := by
      rintro rfl
      simp [block] at htexts
    rw [htexts, List.tail_cons, read_intercalate htail htextsNe]
    exact hsteps

end Secrets

namespace Host

variable {h : Host}

theorem exists_device_text (hstd : h.Standard) {data : Document} {d : Device} (hd : h.validateDevice data = .ok d) :
    ∃ text e, dumpsDevice d.document = .ok text ∧ h.loads text = .table e.document ∧ h.parseDevice text = .ok e ∧
      d.Same e := by
  have haccepted := accepted_of_validateDevice hstd.urlsplit hd
  have hsorted : h.Accepted d.sorted :=
    ⟨haccepted.version, haccepted.cameraName, haccepted.server, haccepted.uri, haccepted.discoveryPrefix,
      haccepted.topicPrefix, haccepted.ntpServers⟩
  have hloads := hstd.loads _ _ d.read_lines
  refine ⟨_, d.sorted, d.dumpsDevice_document haccepted, hloads, ?_, d.same_sorted⟩
  have hload : h.load ("\n".intercalate d.lines ++ "\n") = .ok d.sorted.document := by
    rw [load, hloads]
    rfl
  exact Except.bind_eq_ok hload (h.validateDevice_document hsorted)

theorem exists_secrets_text (hstd : h.Standard) (s : Secrets) :
    ∃ text, dumpsSecrets s.document = .ok text ∧ h.loads text = .table s.document ∧ h.parseSecrets text = .ok s := by
  have hloads := hstd.loads _ _ s.read_text
  refine ⟨_, s.dumpsSecrets_document, hloads, ?_⟩
  have hload : h.load s.text = .ok s.document := by
    rw [load, hloads]
    rfl
  exact Except.bind_eq_ok hload (s.validateSecrets_document h)

end Host

theorem lineHost_standard : lineHost.Standard where
  loads := by
    intro text data hread
    simp only [lineHost, hread]
  urlsplit := rfl

end PiBuddyCam.Config
