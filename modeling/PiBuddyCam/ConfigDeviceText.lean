import PiBuddyCam.ConfigErrors
import PiBuddyCam.ConfigWriter

/-! The device document in text: what the validator returns, it accepts again as it is, and the text that
the writer makes of it is read back as the same document. -/
namespace PiBuddyCam.Config

open TomlText

theorem forM_eq_ok {α : Type} {f : α → Checked Unit} {l : List α} (h : ∀ a ∈ l, f a = .ok ()) : l.forM f = .ok () := by
  induction l with
  | nil => rfl
  | cons a l ih => exact Except.bind_eq_ok (h a List.mem_cons_self) (ih fun b hb => h b (List.mem_cons_of_mem a hb))

theorem mapM_eq_ok {α β : Type} {f : α → Checked β} {g : α → β} {l : List α} (h : ∀ a ∈ l, f a = .ok (g a)) :
    l.mapM f = .ok (l.map g) := by
  induction l with
  | nil => rfl
  | cons a l ih =>
    rw [List.mapM_cons]
    apply Except.bind_eq_ok (h a List.mem_cons_self)
    exact Except.bind_eq_ok (ih fun b hb => h b (List.mem_cons_of_mem a hb)) rfl

theorem checkSubkeys_eq_ok {document key : String} {allowed subs : List String} (h : ∀ sub ∈ subs, sub ∈ allowed) :
    checkSubkeys document key allowed subs = .ok () :=
  forM_eq_ok fun sub hsub => if_pos (h sub hsub)

variable {key : String}

theorem checkDeviceKey_scalar (hscalar : key ∈ deviceScalars)
    (htable : deviceTables.lookup key = none ∧ key ≠ "meta") (v : Value) : checkDeviceKey (key, .value v) = .ok () := by
  simp only [checkDeviceKey, htable.1, if_neg htable.2, if_pos hscalar]
  rfl

theorem checkDeviceKey_table {entries : OrderedDict String Value}
    (htable : deviceTables.lookup key = some entries.keys) : checkDeviceKey (key, .table entries) = .ok () := by
  simp only [checkDeviceKey, htable]
  exact checkSubkeys_eq_ok fun sub hsub => hsub

theorem checkDeviceKey_meta (entries : OrderedDict String Value) : checkDeviceKey ("meta", .table entries) = .ok () := by
  have hmeta : deviceTables.lookup "meta" = none := by decide
  simp only [checkDeviceKey, hmeta, if_true]
  rfl

def strPairs (l : List (String × String)) : List (String × Value) := l.map fun e => (e.1, .str e.2)

theorem keys_strPairs (l : List (String × String)) : (strPairs l).map Prod.fst = l.map Prod.fst := by
  rw [strPairs, List.map_map]
  rfl

namespace Device

def metaEntries (m : OrderedDict String String) : List (String × Value) := strPairs m.entries

def mqttEntries (d : Device) : List (String × Value) :=
  [("enabled", .bool d.enabled), ("uri", .str d.uri), ("client_id", .str d.clientId),
    ("discovery_prefix", .str d.discoveryPrefix), ("topic_prefix", .str d.topicPrefix), ("ca_file", .str d.caFile)]

def pairs (d : Device) : List (String × Value) :=
  [("schema_version", .int d.schemaVersion), ("camera_name", .str d.cameraName), ("fingerprint", .str d.fingerprint)]

def fixedTables (d : Device) : List (String × List (String × Value)) :=
  [("prusa", [("server", .str d.server)]), ("mqtt", d.mqttEntries), ("admin", [("hostname", .str d.hostname)]),
    ("network", [("ntp_servers", .array (d.ntpServers.map .str))])]

def tables (d : Device) : List (String × List (String × Value)) :=
  d.fixedTables ++
  match d.metaTable with
  | none => []
  | some m => [("meta", metaEntries m)]

def document (d : Device) : Document := documentOf d.pairs d.tables

def sorted (d : Device) : Device :=
  { d with metaTable := d.metaTable.map fun m => .ofList (sortedEntries m) }

/-- Equality of dictionaries: the order of the keys does not count. -/
structure Same (d e : Device) : Prop where
  fields : { e with metaTable := d.metaTable } = d
  present : e.metaTable.isSome = d.metaTable.isSome
  values : ∀ key, (e.metaTable.bind (·.get? key)) = d.metaTable.bind (·.get? key)

variable (d : Device)

theorem names_nodup : (d.pairs.map Prod.fst ++ d.tables.map Prod.fst).Nodup := by
  cases hm : d.metaTable <;> simp [pairs, tables, fixedTables, hm]

theorem metaKeys_nodup (m : OrderedDict String String) : ((metaEntries m).map Prod.fst).Nodup := by
  rw [metaEntries, keys_strPairs]
  exact m.nodup

theorem nodup_sortedEntries {ν : Type} (m : OrderedDict String ν) : ((sortedEntries m).map Prod.fst).Nodup :=
  ((List.mergeSort_perm m.entries _).map Prod.fst).nodup_iff.mpr m.nodup

theorem get?_sorted {ν : Type} (m : OrderedDict String ν) (key : String) :
    (OrderedDict.ofList (sortedEntries m)).get? key = m.get? key := by
  apply Option.ext
  intro v
  rw [OrderedDict.get?_eq_some_iff, OrderedDict.get?_eq_some_iff, OrderedDict.entries_ofList _ (nodup_sortedEntries m)]
  exact (List.mergeSort_perm m.entries _).mem_iff

theorem same_sorted : d.Same d.sorted where
  fields := rfl
  present := by simp [sorted]
  values := by
    intro key
    cases hm : d.metaTable with
    | none => simp [sorted, hm]
    | some m => simp [sorted, hm, get?_sorted]

theorem keys_nodup : ((documentEntries d.pairs d.tables).map Prod.fst).Nodup := by
  have hnames := d.names_nodup
  rw [documentEntries, List.map_append, List.map_map, List.map_map]
  exact hnames

theorem tables_nodup : ∀ t ∈ d.tables, (t.2.map Prod.fst).Nodup := by
  intro t ht
  rw [tables, List.mem_append] at ht
  cases ht with
  | inl ht =>
    simp only [fixedTables, List.mem_cons, List.not_mem_nil, or_false] at ht
    rcases ht with rfl | rfl | rfl | rfl <;> simp [mqttEntries]
  | inr ht =>
    split at ht
    · cases ht
    · rw [List.mem_singleton.mp ht]
      exact metaKeys_nodup _

theorem entries_document : d.document.entries = documentEntries d.pairs d.tables :=
  OrderedDict.entries_ofList _ d.keys_nodup

variable {d : Device} {name key : String} {v : Value} {entries : List (String × Value)}

theorem get?_pair (h : (key, v) ∈ d.pairs) : d.document.get? key = some (.value v) := by
  rw [OrderedDict.get?_eq_some_iff, entries_document]
  exact List.mem_append_left _ (List.mem_map.mpr ⟨_, h, rfl⟩)

theorem get?_table (h : (name, entries) ∈ d.tables) : d.document.get? name = some (.table (.ofList entries)) := by
  rw [OrderedDict.get?_eq_some_iff, entries_document]
  exact List.mem_append_right _ (List.mem_map.mpr ⟨_, h, rfl⟩)

theorem get?_entry (ht : (name, entries) ∈ d.fixedTables) (h : (key, v) ∈ entries) :
    (tableOf d.document name).get? key = some v := by
  have hmem : (name, entries) ∈ d.tables := List.mem_append_left _ ht
  rw [tableOf, get?_table hmem]
  rw [OrderedDict.get?_eq_some_iff, OrderedDict.entries_ofList _ (d.tables_nodup _ hmem)]
  exact h

theorem get?_mqtt (h : (key, v) ∈ d.mqttEntries) : (tableOf d.document "mqtt").get? key = some v :=
  get?_entry (.tail _ (.head _)) h

variable (d : Device)

theorem get?_meta : d.document.get? "meta" = d.metaTable.map fun m => .table (.ofList (metaEntries m)) := by
  cases hm : d.metaTable with
  | none =>
    rw [Option.map_none, OrderedDict.get?_eq_none_iff, OrderedDict.keys, entries_document]
    simp [documentEntries, pairs, tables, fixedTables, hm]
  | some m => exact get?_table (by simp [tables, hm])

theorem keys_ofList {l : List (String × Value)} (hl : (l.map Prod.fst).Nodup) :
    (OrderedDict.ofList l).keys = l.map Prod.fst := by
  rw [OrderedDict.keys, OrderedDict.entries_ofList l hl]

theorem checkDeviceKeys_document : checkDeviceKeys d.document = .ok () := by
  have hkeys {t : String × List (String × Value)} (ht : t ∈ d.fixedTables) :
      deviceTables.lookup t.1 = some (t.2.map Prod.fst) := by
    simp only [fixedTables, List.mem_cons, List.not_mem_nil, or_false] at ht
    rcases ht with rfl | rfl | rfl | rfl <;> rfl
  rw [checkDeviceKeys, entries_document]
  apply forM_eq_ok
  intro e he
  rw [documentEntries, List.mem_append, List.mem_map, List.mem_map] at he
  rcases he with ⟨p, hp, rfl⟩ | ⟨t, ht, rfl⟩
  · simp only [pairs, List.mem_cons, List.not_mem_nil, or_false] at hp
    rcases hp with rfl | rfl | rfl <;> dsimp only <;> exact checkDeviceKey_scalar (by decide) (by decide) _
  · have hnodup := d.tables_nodup t ht
    rw [tables, List.mem_append] at ht
    cases ht with
    | inl ht => exact checkDeviceKey_table (by rw [keys_ofList hnodup, hkeys ht])
    | inr ht =>
      split at ht
      · cases ht
      · rw [List.mem_singleton.mp ht]
        exact checkDeviceKey_meta _

theorem validateMeta_document : validateMeta d.document = .ok d.metaTable := by
  have hfold (m : OrderedDict String String) :
      (OrderedDict.ofList (metaEntries m)).entries.foldlM addMeta .empty = .ok m := by
    rw [OrderedDict.entries_ofList _ (metaKeys_nodup m), metaEntries, strPairs, List.foldlM_map]
    have hset : (fun d (e : String × String) => addMeta d (e.1, .str e.2)) =
        fun d e => (pure (d.set e.1 e.2) : Checked (OrderedDict String String)) := rfl
    rw [hset, List.foldlM_pure]
    have hentries : (m.entries.foldl (fun d e => d.set e.1 e.2) OrderedDict.empty) = m :=
      OrderedDict.eq_of_entries (OrderedDict.entries_ofList m.entries m.nodup)
    rw [hentries]
    rfl
  unfold validateMeta tableOf
  rw [get?_meta]
  cases d.metaTable with
  | none => rfl
  | some m => exact Except.bind_eq_ok (hfold m) rfl

end Device

structure Host.Accepted (h : Host) (d : Device) : Prop where
  version : h.validateVersion (.int d.schemaVersion) = .ok d.schemaVersion
  cameraName : validateCameraName (.str d.cameraName) = .ok d.cameraName
  server : normalizePrusaServer d.server = d.server
  uri : h.validateUri (.str d.uri) = .ok d.uri
  discoveryPrefix : validatePrefix "mqtt.discovery_prefix" (.str d.discoveryPrefix) = .ok d.discoveryPrefix
  topicPrefix : validatePrefix "mqtt.topic_prefix" (.str d.topicPrefix) = .ok d.topicPrefix
  ntpServers : validateNtpServers (.array (d.ntpServers.map .str)) = .ok d.ntpServers

theorem scalar_eq {α : Type} {data : Document} {v : Value} (hkey : data.get? key = some (.value v))
    (check : Value → Checked α) (default : α) : scalar data key check default = check v := by
  rw [scalar, hkey]

theorem entry_eq {α : Type} {table : OrderedDict String Value} {v : Value} (hkey : table.get? key = some v)
    (check : Value → Checked α) (default : α) : entry table key check default = check v := by
  rw [entry, hkey]

namespace Host

variable (h : Host)

theorem validateDevice_document {d : Device} (hd : h.Accepted d) : h.validateDevice d.document = .ok d := by
  unfold validateDevice
  apply Except.bind_eq_ok d.checkDeviceKeys_document
  rw [scalar_eq (Device.get?_pair (.head _)), scalar_eq (Device.get?_pair (.tail _ (.head _))),
    scalar_eq (Device.get?_pair (.tail _ (.tail _ (.head _)))), entry_eq (Device.get?_entry (.head _) (.head _))]
  apply Except.bind_eq_ok hd.version
  apply Except.bind_eq_ok hd.cameraName
  apply Except.bind_eq_ok (a := d.fingerprint) rfl
  apply Except.bind_eq_ok (a := d.server) (congrArg Except.ok hd.server)
  dsimp only
  rw [entry_eq (Device.get?_mqtt (v := .bool d.enabled) (by simp [Device.mqttEntries])),
    entry_eq (Device.get?_mqtt (v := .str d.uri) (by simp [Device.mqttEntries])),
    entry_eq (Device.get?_mqtt (v := .str d.clientId) (by simp [Device.mqttEntries])),
    entry_eq (Device.get?_mqtt (v := .str d.caFile) (by simp [Device.mqttEntries])),
    entry_eq (Device.get?_mqtt (v := .str d.discoveryPrefix) (by simp [Device.mqttEntries])),
    entry_eq (Device.get?_mqtt (v := .str d.topicPrefix) (by simp [Device.mqttEntries])),
    entry_eq (Device.get?_entry (.tail _ (.tail _ (.head _))) (.head _)),
    entry_eq (Device.get?_entry (.tail _ (.tail _ (.tail _ (.head _)))) (.head _))]
  apply Except.bind_eq_ok (a := d.enabled) rfl
  apply Except.bind_eq_ok hd.uri
  apply Except.bind_eq_ok (a := d.clientId) rfl
  apply Except.bind_eq_ok (a := d.caFile) rfl
  apply Except.bind_eq_ok hd.discoveryPrefix
  apply Except.bind_eq_ok hd.topicPrefix
  apply Except.bind_eq_ok (a := d.hostname) rfl
  apply Except.bind_eq_ok hd.ntpServers
  apply Except.bind_eq_ok d.validateMeta_document
  rfl

end Host

section FixedPoints

variable {α : Type} {P : α → Prop} {check : Value → Checked α} {default a : α}

/-- What holds of the default and of all that the check returns holds of the field. -/
theorem entry_induct (hdefault : P default) (hcheck : ∀ v a, check v = .ok a → P a)
    {table : OrderedDict String Value} {key : String} (ha : entry table key check default = .ok a) : P a := by
  unfold entry at ha
  split at ha
  · cases ha
    exact hdefault
  · exact hcheck _ a ha

theorem scalar_induct (hdefault : P default) (hcheck : ∀ v a, check v = .ok a → P a)
    {data : Document} {key : String} (ha : scalar data key check default = .ok a) : P a := by
  unfold scalar at ha
  split at ha
  · cases ha
    exact hdefault
  · exact hcheck _ a ha
  · exact hcheck _ a ha

theorem expectStr_eq_ok {path s : String} {v : Value} (hv : expectStr path v = .ok s) : v = .str s := by
  unfold expectStr at hv
  split at hv
  · cases hv
    rfl
  · cases hv

theorem strip_strip (s : String) : PyText.strip (PyText.strip s) = PyText.strip s :=
  PyText.strip_eq_self (fun _ => PyText.head?_strip) (fun _ => PyText.getLast?_strip)

theorem validateCameraName_fixed (v : Value) (name : String) (hv : validateCameraName v = .ok name) :
    validateCameraName (.str name) = .ok name := by
  obtain ⟨s, -, hs⟩ := Except.exists_of_bind_eq_ok hv
  dsimp only at hs
  have hname : PyText.strip s = name := by
    split_ifs at hs
    · cases hs
    · cases hs
    · exact Except.ok.inj hs
  apply Except.bind_eq_ok (a := name) rfl
  rw [← hname, strip_strip]
  exact hname ▸ hs

theorem normalizePrusaServer_fixed (s : String) :
    normalizePrusaServer (normalizePrusaServer s) = normalizePrusaServer s := by
  have hdefault : normalizePrusaServer defaultPrusaServer = defaultPrusaServer := by decide +kernel
  by_cases hs : (PyText.strip s).toLower ∈ legacyPrusaServers
  · have heq : normalizePrusaServer s = defaultPrusaServer := if_pos hs
    rw [heq, hdefault]
  · have heq : normalizePrusaServer s = s := if_neg hs
    rw [heq, heq]

theorem validatePrefix_fixed (path : String) (v : Value) (s : String) (hv : validatePrefix path v = .ok s) :
    validatePrefix path (.str s) = .ok s := by
  obtain ⟨s', hs', hs⟩ := Except.exists_of_bind_eq_ok hv
  have heq : s' = s := by
    split_ifs at hs
    · cases hs
    · exact Except.ok.inj hs
  rw [heq] at hs'
  rw [← expectStr_eq_ok hs']
  exact hv

theorem Host.validateUri_fixed (h : Host) (v : Value) (uri : String) (hv : h.validateUri v = .ok uri) :
    h.validateUri (.str uri) = .ok uri := by
  obtain ⟨s, hs, hrest⟩ := Except.exists_of_bind_eq_ok hv
  have heq : s = uri := by
    split at hrest
    · cases hrest
    · split_ifs at hrest
      · cases hrest
      · cases hrest
      · split at hrest
        · cases hrest
        · exact Except.ok.inj hrest
        · split_ifs at hrest
          · exact Except.ok.inj hrest
          · cases hrest
  rw [heq] at hs
  rw [← expectStr_eq_ok hs]
  exact hv

theorem Host.validateVersion_fixed (h : Host) (v : Value) (n : ℤ) (hv : h.validateVersion v = .ok n) :
    h.validateVersion (.int n) = .ok n := by
  unfold Host.validateVersion at hv
  split at hv
  · rename_i version
    have heq : version = n := by
      split_ifs at hv
      · unfold Host.tooNew at hv
        split_ifs at hv
      · exact Except.ok.inj hv
    rw [← heq] at hv ⊢
    exact hv
  · cases hv

structure ServerList (servers : List String) : Prop where
  nodup : servers.Nodup
  named : ∀ name ∈ servers, PyText.strip name = name ∧ ntpHost name = true

variable {servers servers' : List String}

theorem addServer_eq_ok {v : Value} (hs : ServerList servers)
    (hv : addServer servers v = .ok servers') :
    ServerList servers' ∧ servers'.length ≤ servers.length+1 := by
  unfold addServer at hv
  split at hv
  · rename_i item
    dsimp only at hv
    split_ifs at hv with hhost hmem
    · cases hv
    · cases hv
      exact ⟨hs, by omega⟩
    · cases hv
      refine ⟨⟨?_, ?_⟩, by simp⟩
      · rw [List.nodup_append]
        refine ⟨hs.nodup, List.nodup_singleton _, ?_⟩
        intro name hname other hother heq
        rw [heq, List.mem_singleton.mp hother] at hname
        exact hmem hname
      · intro name hname
        rw [List.mem_append, List.mem_singleton] at hname
        rcases hname with hname | rfl
        · exact hs.named name hname
        · exact ⟨strip_strip item, by simpa using hhost⟩
  · cases hv

theorem foldlM_addServer_eq_ok {items : List Value} (hs : ServerList servers)
    (hv : items.foldlM addServer servers = .ok servers') :
    ServerList servers' ∧ servers'.length ≤ servers.length + items.length := by
  induction items generalizing servers with
  | nil =>
    cases hv
    exact ⟨hs, by simp⟩
  | cons v items ih =>
    rw [List.foldlM_cons] at hv
    obtain ⟨next, hnext, hrest⟩ := Except.exists_of_bind_eq_ok hv
    obtain ⟨hlist, hlength⟩ := addServer_eq_ok hs hnext
    obtain ⟨hfinal, hbound⟩ := ih hlist hrest
    rw [List.length_cons]
    exact ⟨hfinal, by omega⟩

theorem foldlM_addServer_names (names servers : List String) (hlist : ServerList (servers ++ names)) :
    (names.map Value.str).foldlM addServer servers = .ok (servers ++ names) := by
  induction names generalizing servers with
  | nil =>
    rw [List.append_nil]
    rfl
  | cons name names ih =>
    obtain ⟨hstrip, hhost⟩ := hlist.named name (by simp)
    have hnew : name ∉ servers := by
      intro hmem
      exact (List.nodup_append.mp hlist.nodup).2.2 name hmem name (by simp) rfl
    have hadd : addServer servers (.str name) = .ok (servers ++ [name]) := by
      simp only [addServer, hstrip, hhost, Bool.not_true, Bool.false_eq_true, if_false, hnew]
      rfl
    have happend : servers ++ name :: names = servers ++ [name] ++ names := by simp
    rw [List.map_cons, List.foldlM_cons, hadd, happend]
    exact ih (servers ++ [name]) (happend ▸ hlist)

theorem validateNtpServers_fixed (v : Value) (names : List String) (hv : validateNtpServers v = .ok names) :
    validateNtpServers (.array (names.map .str)) = .ok names := by
  unfold validateNtpServers at hv
  split at hv
  · split_ifs at hv with hmany
    · cases hv
    · obtain ⟨hlist, hlength⟩ := foldlM_addServer_eq_ok ⟨List.nodup_nil, by simp⟩ hv
      have hfew : ¬ 3 < (names.map Value.str).length := by
        rw [List.length_map]
        rw [List.length_nil] at hlength
        omega
      rw [validateNtpServers, if_neg hfew]
      exact foldlM_addServer_names names [] hlist
  · cases hv

end FixedPoints

/-- The standard library as it is documented: `tomllib` reads TOML 1.0, and so the line-based part of it;
and `urlsplit` takes the default address apart. -/
structure Host.Standard (h : Host) : Prop where
  loads : ∀ text data, TomlText.read text = some data → h.loads text = .table data
  urlsplit : h.urlsplit defaultDevice.uri = some ⟨"mqtts", "broker.example:8883", none, none, some (some 8883)⟩

namespace Host

variable {h : Host}

/-- Every default passes its own check. -/
theorem accepted_default (hurl : h.urlsplit defaultDevice.uri =
    some ⟨"mqtts", "broker.example:8883", none, none, some (some 8883)⟩) : h.Accepted defaultDevice where
  version := rfl
  cameraName := by
    have hstrip : PyText.strip defaultDevice.cameraName = defaultDevice.cameraName := by decide +kernel
    apply Except.bind_eq_ok (a := defaultDevice.cameraName) rfl
    rw [hstrip, if_neg (by decide), if_neg (by decide)]
    rfl
  server := normalizePrusaServer_fixed defaultPrusaServer ▸ by decide +kernel
  uri := by
    apply Except.bind_eq_ok (a := defaultDevice.uri) rfl
    simp only [hurl]
    rfl
  discoveryPrefix := by
    apply Except.bind_eq_ok (a := defaultDevice.discoveryPrefix) rfl
    rw [if_neg (by decide)]
    rfl
  topicPrefix := by
    apply Except.bind_eq_ok (a := defaultDevice.topicPrefix) rfl
    rw [if_neg (by decide)]
    rfl
  ntpServers := rfl

theorem accepted_of_validateDevice (hurl : h.urlsplit defaultDevice.uri =
    some ⟨"mqtts", "broker.example:8883", none, none, some (some 8883)⟩) {data : Document} {d : Device}
    (hd : h.validateDevice data = .ok d) : h.Accepted d := by
  have hdefault := accepted_default hurl
  unfold validateDevice at hd
  obtain ⟨_, -, hd⟩ := Except.exists_of_bind_eq_ok hd
  obtain ⟨version, hversion, hd⟩ := Except.exists_of_bind_eq_ok hd
  obtain ⟨name, hname, hd⟩ := Except.exists_of_bind_eq_ok hd
  obtain ⟨fingerprint, -, hd⟩ := Except.exists_of_bind_eq_ok hd
  obtain ⟨server, hserver, hd⟩ := Except.exists_of_bind_eq_ok hd
  obtain ⟨enabled, -, hd⟩ := Except.exists_of_bind_eq_ok hd
  obtain ⟨uri, huri, hd⟩ := Except.exists_of_bind_eq_ok hd
  obtain ⟨clientId, -, hd⟩ := Except.exists_of_bind_eq_ok hd
  obtain ⟨caFile, -, hd⟩ := Except.exists_of_bind_eq_ok hd
  obtain ⟨discovery, hdiscovery, hd⟩ := Except.exists_of_bind_eq_ok hd
  obtain ⟨topic, htopic, hd⟩ := Except.exists_of_bind_eq_ok hd
  obtain ⟨hostname, -, hd⟩ := Except.exists_of_bind_eq_ok hd
  obtain ⟨servers, hservers, hd⟩ := Except.exists_of_bind_eq_ok hd
  obtain ⟨table, -, hd⟩ := Except.exists_of_bind_eq_ok hd
  cases hd
  have hnormal (v : Value) (s : String) (hs : (do pure (normalizePrusaServer (← expectStr "prusa.server" v))) = Except.ok s) :
      normalizePrusaServer s = s := by
    obtain ⟨raw, -, hraw⟩ := Except.exists_of_bind_eq_ok hs
    rw [← Except.ok.inj hraw, normalizePrusaServer_fixed]
  constructor
  · exact scalar_induct (P := fun n => h.validateVersion (.int n) = .ok n) hdefault.version h.validateVersion_fixed hversion
  · exact scalar_induct (P := fun s => validateCameraName (.str s) = .ok s) hdefault.cameraName validateCameraName_fixed hname
  · exact entry_induct (P := fun s => normalizePrusaServer s = s) hdefault.server hnormal hserver
  · exact entry_induct (P := fun s => h.validateUri (.str s) = .ok s) hdefault.uri h.validateUri_fixed huri
  · exact entry_induct (P := fun s => validatePrefix _ (.str s) = .ok s) hdefault.discoveryPrefix (validatePrefix_fixed _)
      hdiscovery
  · exact entry_induct (P := fun s => validatePrefix _ (.str s) = .ok s) hdefault.topicPrefix (validatePrefix_fixed _) htopic
  · exact entry_induct (P := fun l => validateNtpServers (.array (l.map .str)) = .ok l) hdefault.ntpServers
      validateNtpServers_fixed hservers

end Host

namespace Device

variable (d : Device)

def metaTexts (m : OrderedDict String String) : List String :=
  (sortedEntries m).map fun e => pairLine (tomlKey e.1) (quoted e.2)

/-- The lines of the written document without `[meta]`. -/
def fixedLines : List String :=
  [pairLine "schema_version" (toString d.schemaVersion), pairLine "camera_name" (quoted d.cameraName),
    pairLine "fingerprint" (quoted d.fingerprint), "",
    "[prusa]", pairLine "server" (quoted d.server), "",
    "[mqtt]", pairLine "enabled" (if d.enabled then "true" else "false"), pairLine "uri" (quoted d.uri),
    pairLine "client_id" (quoted d.clientId), pairLine "discovery_prefix" (quoted d.discoveryPrefix),
    pairLine "topic_prefix" (quoted d.topicPrefix), pairLine "ca_file" (quoted d.caFile), "",
    "[admin]", pairLine "hostname" (quoted d.hostname), "",
    "[network]", pairLine "ntp_servers" ("[" ++ ", ".intercalate (d.ntpServers.map quoted) ++ "]")]

def lines : List String :=
  d.fixedLines ++
  match d.metaTable with
  | none => []
  | some m => "" :: "[meta]" :: metaTexts m

variable (m : OrderedDict String String)

theorem sortedEntries_meta :
    sortedEntries (OrderedDict.ofList (metaEntries m)) = strPairs (sortedEntries m) := by
  rw [sortedEntries, OrderedDict.entries_ofList _ (metaKeys_nodup m), sortedEntries, metaEntries]
  symm
  apply List.map_mergeSort
  intro e _ f _
  rfl

theorem metaLines_document : metaLines d.document = .ok (match d.metaTable with
    | none => []
    | some m => "" :: "[meta]" :: metaTexts m) := by
  unfold metaLines
  rw [get?_meta]
  cases d.metaTable with
  | none => rfl
  | some m =>
    have hmap : (sortedEntries (OrderedDict.ofList (metaEntries m))).mapM metaLine = .ok (metaTexts m) := by
      rw [sortedEntries_meta, strPairs, List.mapM_map]
      exact List.mapM_pure
    exact Except.bind_eq_ok hmap rfl

theorem mergedScalar_eq {cfg : Document} {key : String} {v : Value} (hkey : cfg.get? key = some (.value v))
    (default : Value) : mergedScalar cfg key default = v := by
  rw [mergedScalar, hkey]

theorem mergedEntry_eq {cfg : Document} {table key : String} {v : Value} (hkey : (tableOf cfg table).get? key = some v)
    (default : Value) : mergedEntry cfg table key default = v := by
  rw [mergedEntry, hkey]
  rfl

theorem dumpsDevice_document {h : Host} (hd : h.Accepted d) :
    dumpsDevice d.document = .ok ("\n".intercalate d.lines ++ "\n") := by
  unfold dumpsDevice
  rw [mergedScalar_eq (get?_pair (.head _)), mergedScalar_eq (get?_pair (.tail _ (.head _))),
    mergedScalar_eq (get?_pair (.tail _ (.tail _ (.head _)))), mergedEntry_eq (get?_entry (.head _) (.head _)),
    mergedEntry_eq (get?_entry (.tail _ (.tail _ (.head _))) (.head _)),
    mergedEntry_eq (get?_entry (.tail _ (.tail _ (.tail _ (.head _)))) (.head _)),
    mergedEntry_eq (get?_mqtt (v := .bool d.enabled) (by simp [mqttEntries])),
    mergedEntry_eq (get?_mqtt (v := .str d.uri) (by simp [mqttEntries])),
    mergedEntry_eq (get?_mqtt (v := .str d.clientId) (by simp [mqttEntries])),
    mergedEntry_eq (get?_mqtt (v := .str d.discoveryPrefix) (by simp [mqttEntries])),
    mergedEntry_eq (get?_mqtt (v := .str d.topicPrefix) (by simp [mqttEntries])),
    mergedEntry_eq (get?_mqtt (v := .str d.caFile) (by simp [mqttEntries]))]
  apply Except.bind_eq_ok (a := toString d.schemaVersion) rfl
  apply Except.bind_eq_ok (a := quoted d.cameraName) rfl
  apply Except.bind_eq_ok (a := quoted d.fingerprint) rfl
  apply Except.bind_eq_ok (a := quoted d.server) rfl
  apply Except.bind_eq_ok (a := if d.enabled then "true" else "false") rfl
  apply Except.bind_eq_ok (a := quoted d.uri) rfl
  apply Except.bind_eq_ok (a := quoted d.clientId) rfl
  apply Except.bind_eq_ok (a := quoted d.discoveryPrefix) rfl
  apply Except.bind_eq_ok (a := quoted d.topicPrefix) rfl
  apply Except.bind_eq_ok (a := quoted d.caFile) rfl
  apply Except.bind_eq_ok (a := quoted d.hostname) rfl
  apply Except.bind_eq_ok hd.ntpServers
  apply Except.bind_eq_ok d.metaLines_document
  rfl

theorem lineOf_meta (e : String × String) : LineOf (pairLine (tomlKey e.1) (quoted e.2)) (.pair e.1 (.str e.2)) := by
  unfold tomlKey
  split_ifs with hbare
  · have hname : BareName e.1 := by
      constructor
      · intro hnil
        exact hbare.1 (String.toList_eq_nil_iff.mp hnil)
      · exact List.all_eq_true.mp hbare.2
    exact lineOf_pair hname (written_quoted e.2)
  · have hbody : quoted e.1 = "\"" ++ String.ofList (e.1.toList.flatMap escapeChar) ++ "\"" := by
      apply String.toList_inj.mp
      simp [toList_quoted]
    have hread (rest : List Char) : readString ((String.ofList (e.1.toList.flatMap escapeChar)).toList ++ '"' :: rest) =
        some (e.1.toList, rest) := by
      rw [String.toList_ofList]
      exact readString_flatMap readString_escapeChar e.1.toList rest
    have hnewline : '\n' ∉ (String.ofList (e.1.toList.flatMap escapeChar)).toList := by
      simp [newline_notMem_escapeChar]
    have hline := lineOf_quotedPair hread hnewline (written_quoted e.2)
    rw [String.ofList_toList] at hline
    rw [hbody]
    exact hline

theorem metaEntries_sorted :
    metaEntries (.ofList (sortedEntries m)) = strPairs (sortedEntries m) := by
  rw [metaEntries, OrderedDict.entries_ofList _ (nodup_sortedEntries m)]

theorem metaTexts_read :
    List.Forall₂ LineOf (metaTexts m) (pairLines (metaEntries (.ofList (sortedEntries m)))) := by
  rw [metaTexts, metaEntries_sorted, pairLines, strPairs, List.map_map, List.forall₂_map_left_iff, List.forall₂_map_right_iff,
    List.forall₂_same]
  intro e _
  exact lineOf_meta e

theorem fixedLines_read :
    List.Forall₂ LineOf d.fixedLines (pairLines d.pairs ++ d.fixedTables.flatMap tableLines) := by
  have hprusa : LineOf "[prusa]" (.header "prusa") := lineOf_header (by decide) (by decide)
  have hmqtt : LineOf "[mqtt]" (.header "mqtt") := lineOf_header (by decide) (by decide)
  have hadmin : LineOf "[admin]" (.header "admin") := lineOf_header (by decide) (by decide)
  have hnetwork : LineOf "[network]" (.header "network") := lineOf_header (by decide) (by decide)
  exact
    .cons (lineOf_pair (by decide) (written_int _)) <| .cons (lineOf_pair (by decide) (written_quoted _)) <|
    .cons (lineOf_pair (by decide) (written_quoted _)) <| .cons lineOf_blank <|
    .cons hprusa <| .cons (lineOf_pair (by decide) (written_quoted _)) <| .cons lineOf_blank <|
    .cons hmqtt <| .cons (lineOf_pair (by decide) (written_bool _)) <|
    .cons (lineOf_pair (by decide) (written_quoted _)) <| .cons (lineOf_pair (by decide) (written_quoted _)) <|
    .cons (lineOf_pair (by decide) (written_quoted _)) <| .cons (lineOf_pair (by decide) (written_quoted _)) <|
    .cons (lineOf_pair (by decide) (written_quoted _)) <| .cons lineOf_blank <|
    .cons hadmin <| .cons (lineOf_pair (by decide) (written_quoted _)) <| .cons lineOf_blank <|
    .cons hnetwork <| .cons (lineOf_pair (by decide) (written_array _)) .nil

theorem lines_read :
    List.Forall₂ LineOf d.lines (pairLines d.sorted.pairs ++ d.sorted.tables.flatMap tableLines) := by
  have hmeta : LineOf "[meta]" (.header "meta") := lineOf_header (by decide) (by decide)
  have hfixed : List.Forall₂ LineOf d.fixedLines (pairLines d.sorted.pairs ++ d.sorted.fixedTables.flatMap tableLines) :=
    d.fixedLines_read
  rw [lines, tables, List.flatMap_append, ← List.append_assoc]
  apply List.rel_append hfixed
  unfold sorted
  cases d.metaTable with
  | none => exact .nil
  | some m =>
    have hlines := metaTexts_read m
    simp only [Option.map_some, List.flatMap_cons, List.flatMap_nil, List.append_nil, tableLines]
    exact .cons lineOf_blank (.cons hmeta hlines)

theorem read_lines : TomlText.read ("\n".intercalate d.lines ++ "\n") = some d.sorted.document := by
  have hne : d.lines ≠ [] := by simp [lines, fixedLines]
  rw [read_intercalate d.lines_read hne, steps_document _ _ d.sorted.names_nodup d.sorted.tables_nodup]
  rfl

end Device

end PiBuddyCam.Config
