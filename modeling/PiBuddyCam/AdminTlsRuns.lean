import PiBuddyCam.AdminTls

/-! Runs of `ensure`, each of which may fail in any call or be cut: a run that returns leaves a key and a certificate
of one generation, and `admin.env` is written only when they are there. -/
namespace PiBuddyCam.AdminTls

abbrev Journal := Traced Op Res World

abbrev journal : Machine Op Res Journal Choice := machine.traced

abbrev Entry := (o : Op) × Res o

def Content.From (generations : List (List String)) : Content → Prop
  | .key g => g < generations.length
  | .cert g names => generations[g]? = some names
  | .other => True

/-- Every key and every certificate comes from a generation, and its names can be read back. -/
structure Labelled (w : World) : Prop where
  findable : ∀ names ∈ w.generations, ∀ name ∈ names, Findable name
  file : ∀ name c, w.node name = some (.file c) → c.From w.generations
  staged : ∀ name files, w.node name = some (.dir files) → ∀ e ∈ files, e.2.From w.generations

/-- The two files are regular ones, of one generation, and the certificate covers the name. -/
def Provisioned (host : String) (w : World) : Prop :=
  ∃ g names, w.node keyFile = some (.file (.key g)) ∧ w.node certFile = some (.file (.cert g names)) ∧
    w.generations[g]? = some names ∧ host ∈ names

def Published (log : List Entry) : Prop := ∃ text r, (⟨.writeEnv text, r⟩ : Entry) ∈ log

theorem Content.From.append {generations : List (List String)} {c : Content} (h : c.From generations)
    (more : List (List String)) : c.From (generations ++ more) := by
  cases c with
  | key g =>
    have hlt : g < generations.length := h
    show g < (generations ++ more).length
    rw [List.length_append]
    omega
  | cert g names =>
    have hget : generations[g]? = some names := h
    exact (List.getElem?_append_left (List.getElem?_eq_some_iff.mp hget).1).trans hget
  | other => trivial

/-- The names of a request are those of some candidates, and a temporary directory has the stem of the source. -/
def Op.Asks : Op → Prop
  | .request _ _ san => ∃ raws, san = sanEntries (distinctLabels raws)
  | .mkdtemp stem => stem = stagingStem
  | _ => True

def Op.Prepares : Op → Prop
  | .writeEnv _ => False
  | o => o.Asks

/-- The pair in place stays, and no other one is asked for. -/
def Op.Keeps : Op → Prop
  | .replace _ _ _ | .request _ _ _ => False
  | o => o.Asks

theorem Op.Prepares.asks {o : Op} (h : o.Prepares) : o.Asks := by
  cases o with
  | writeEnv text => exact h.elim
  | _ => exact h

theorem Op.Keeps.asks {o : Op} (h : o.Keeps) : o.Asks := by
  cases o with
  | replace dir file dst => exact h.elim
  | request staging subject san => exact h.elim
  | _ => exact h

theorem filterMap_dnsOf (candidates : List String) : (sanEntries candidates).filterMap dnsOf = dnsNames candidates := by
  have hdns (name : String) : dnsOf ("DNS:" ++ name) = some name := by
    have hstart : PyText.startswith ("DNS:" ++ name) "DNS:" = true := by
      rw [PyText.startswith_iff, String.toList_append]
      exact List.prefix_append _ _
    have hlen : "DNS:".toList.length = 4 := by decide
    rw [dnsOf, if_pos hstart, String.toList_append, ← hlen, List.drop_left, String.ofList_toList]
  have hip : dnsOf "IP:127.0.0.1" = none := by decide
  have hnames (names : List String) : (names.map ("DNS:" ++ ·)).filterMap dnsOf = names := by
    induction names with
    | nil => rfl
    | cons name names ih => rw [List.map_cons, List.filterMap_cons_some (hdns name), ih]
  rw [sanEntries, List.filterMap_append, hnames, List.filterMap_cons_none hip, List.filterMap_nil, List.append_nil]

section Steps

variable {w : World}

theorem node_freeName (w : World) (name : String) : w.node (w.freeName name) = none := by
  unfold World.freeName
  split_ifs with htaken
  · -- an entry of that name would be longer than all of them
    refine (OrderedDict.get?_eq_none_iff _ _).mpr fun hmem => ?_
    have hle := (List.sublist_flatten_of_mem (List.mem_map_of_mem (f := String.toList) hmem)).length_le
    rw [String.toList_append, List.length_append, String.toList_ofList, List.length_replicate] at hle
    omega
  · exact Option.not_isSome_iff_eq_none.mp htaken

theorem freeName_stem (w : World) (stem suffix : String) : ∃ rest, w.freeName (stem ++ suffix) = stem ++ rest := by
  unfold World.freeName
  split_ifs
  · exact ⟨suffix ++ _, String.append_assoc⟩
  · exact ⟨suffix, rfl⟩

theorem Labelled.put (hw : Labelled w) (name : String) {n : Node} (hfile : ∀ c, n = .file c → c.From w.generations)
    (hdir : ∀ files, n = .dir files → ∀ e ∈ files, e.2.From w.generations) : Labelled (w.put name n) := by
  refine ⟨hw.findable, fun other c h => ?_, fun other files h => ?_⟩
  · by_cases hne : other = name
    · rw [hne, World.node_put_self] at h
      exact hfile c (Option.some.inj h)
    · rw [World.node_put_of_ne _ _ hne] at h
      exact hw.file other c h
  · by_cases hne : other = name
    · rw [hne, World.node_put_self] at h
      exact hdir files (Option.some.inj h)
    · rw [World.node_put_of_ne _ _ hne] at h
      exact hw.staged other files h

theorem Labelled.del (hw : Labelled w) (name : String) : Labelled (w.del name) := by
  have hsub {other : String} {n : Node} (h : (w.del name).node other = some n) : w.node other = some n :=
    ((OrderedDict.get?_pop_eq_some_iff _ _ _ _).mp h).1
  exact ⟨hw.findable, fun other c h => hw.file other c (hsub h), fun other files h => hw.staged other files (hsub h)⟩

theorem Labelled.generate (hw : Labelled w) (staging : String) {names : List String}
    (hnames : ∀ name ∈ names, Findable name) : Labelled (w.generate staging names) := by
  have hnode {other : String} (hne : other ≠ staging) : (w.generate staging names).node other = w.node other :=
    OrderedDict.get?_set_of_ne _ _ hne
  have hself : (w.generate staging names).node staging =
      some (.dir [(keyFile, .key w.generations.length), (certFile, .cert w.generations.length names)]) :=
    OrderedDict.get?_set_self _ _ _
  refine ⟨fun ns hns => ?_, fun other c h => ?_, fun other files h e he => ?_⟩
  · rcases List.mem_append.mp hns with hns | hns
    · exact hw.findable ns hns
    · rw [List.mem_singleton.mp hns]
      exact hnames
  · by_cases hne : other = staging
    · rw [hne, hself] at h
      cases h
    · exact (hw.file other c ((hnode hne).symm.trans h)).append _
  · by_cases hne : other = staging
    · rw [hne, hself] at h
      obtain rfl := Node.dir.inj (Option.some.inj h)
      rcases List.mem_cons.mp he with rfl | he
      · show w.generations.length < (w.generations ++ [names]).length
        rw [List.length_append]
        exact Nat.lt_succ_self _
      · rw [List.mem_singleton.mp he]
        exact List.getElem?_concat_length
    · exact (hw.staged other files ((hnode hne).symm.trans h) e he).append _

theorem Choice.failureCode_ne_zero (c : Choice) : c.failureCode ≠ 0 := by
  unfold Choice.failureCode
  split_ifs with h
  · decide
  · exact h

theorem request_ok {staging subject text : String} {san : List String} {c : Choice}
    (h : (w.request staging subject san c).1 = .ok (0, text)) :
    (w.request staging subject san c).2 = w.generate staging (san.filterMap dnsOf) := by
  have hcode : (.ok (c.failureCode, c.text) : Outcome) ≠ .ok (0, text) := by
    intro h
    exact c.failureCode_ne_zero (congrArg Prod.fst (Except.ok.inj h))
  revert h
  unfold World.request
  split
  · exact fun h => nomatch h
  split
  · split_ifs
    · exact fun _ => rfl
    · exact fun h => absurd h hcode
    · exact fun h => absurd h hcode
  · exact fun h => absurd h hcode

theorem replace_ok {dir file dst : String} {files : List (String × Content)} {content : Content} {c : Choice}
    (hdir : w.node dir = some (.dir files)) (hfile : files.lookup file = some content)
    (hok : (w.replace dir file dst c).1 = .ok ()) :
    (w.replace dir file dst c).2 = (w.put dir (.dir (files.filter fun e => e.1 ≠ file))).put dst (.file content) := by
  revert hok
  simp only [World.replace, World.fileIn, hdir, hfile]
  split_ifs
  · exact fun h => nomatch h
  · exact fun _ => rfl

/-- What a call leaves of the directory. -/
inductive Effect (w : World) : Op → World → Prop
  | same {o : Op} {w' : World} : w'.entries = w.entries → w'.generations = w.generations → Effect w o w'
  | refilled {o : Op} {name : String} {old files : List (String × Content)} : w.node name = some (.dir old) →
      (∀ e ∈ files, e ∈ old ∨ e.2 = .other) → Effect w o (w.put name (.dir files))
  | created {o : Op} {name rest : String} : w.node name = none → name = stagingStem ++ rest →
      Effect w o (w.put name (.dir []))
  | removed {o : Op} {name : String} {old : List (String × Content)} : w.node name = some (.dir old) →
      Effect w o (w.del name)
  | made {staging subject : String} {san raws : List String} {old : List (String × Content)} :
      w.node staging = some (.dir old) →
      Effect w (.request staging subject san) (w.generate staging (dnsNames (distinctLabels raws)))
  | moved {dir file dst : String} {old files : List (String × Content)} {content : Content} :
      w.node dir = some (.dir old) → (file, content) ∈ old → (∀ e ∈ files, e ∈ old) →
      Effect w (.replace dir file dst) ((w.put dir (.dir files)).put dst (.file content))

theorem effect_step (w : World) {o : Op} (ho : o.Asks) (c : Choice) : Effect w o (w.step o c).2 := by
  cases o with
  | rmtree name =>
    show Effect w _ (w.rmtree name c)
    unfold World.rmtree
    split
    · rename_i files hdir
      split_ifs
      · exact .same rfl rfl
      · exact .refilled hdir fun _ he => nomatch he
      · exact .removed hdir
    · exact .same rfl rfl
  | mkdtemp stem =>
    obtain rfl : stem = stagingStem := ho
    show Effect w _ (w.mkdtemp stagingStem c).2
    obtain ⟨rest, hrest⟩ := freeName_stem w stagingStem c.suffix
    unfold World.mkdtemp
    split_ifs
    · exact .same rfl rfl
    · exact .created (node_freeName _ _) hrest
  | request staging subject san =>
    obtain ⟨raws, rfl⟩ := ho
    show Effect w _ (w.request staging subject (sanEntries (distinctLabels raws)) c).2
    unfold World.request
    split
    · exact .same rfl rfl
    split
    · rename_i files hdir
      split_ifs
      · rw [filterMap_dnsOf]
        exact .made hdir
      · refine .refilled hdir fun e he => ?_
        rcases List.mem_append.mp he with he | he
        · exact .inl he
        · rw [List.mem_singleton.mp he]
          exact .inr rfl
      · exact .same rfl rfl
    · exact .same rfl rfl
  | replace dir file dst =>
    show Effect w _ (w.replace dir file dst c).2
    unfold World.replace
    split
    · rename_i files content hdir hcontent
      split_ifs
      · exact .same rfl rfl
      · simp only [World.fileIn, hdir] at hcontent
        obtain ⟨before, after, hfiles, -⟩ := List.lookup_eq_some_iff.mp hcontent
        refine .moved hdir ?_ fun e he => (List.mem_filter.mp he).1
        rw [hfiles]
        exact List.mem_append_right before List.mem_cons_self
    · exact .same rfl rfl
  | writeEnv text =>
    simp only [World.step]
    split_ifs <;> exact .same rfl rfl
  | _ => exact .same rfl rfl

theorem labelled_step (hw : Labelled w) {o : Op} (ho : o.Asks) (c : Choice) : Labelled (w.step o c).2 := by
  have hdir (name : String) {files : List (String × Content)} (h : ∀ e ∈ files, e.2.From w.generations) :
      Labelled (w.put name (.dir files)) := by
    refine hw.put name (fun _ h => nomatch h) fun files' hfiles => ?_
    rwa [← Node.dir.inj hfiles]
  have hout := effect_step w ho c
  generalize (w.step o c).2 = w' at hout ⊢
  cases hout with
  | same hentries hgen =>
    obtain ⟨entries, env, generations⟩ := w'
    obtain rfl : entries = w.entries := hentries
    obtain rfl : generations = w.generations := hgen
    exact ⟨hw.findable, hw.file, hw.staged⟩
  | @refilled _ name old files hold hfiles =>
    refine hdir name fun e he => ?_
    rcases hfiles e he with h | h
    · exact hw.staged name old hold e h
    · rw [h]
      trivial
  | created _ _ => exact hdir _ fun e he => nomatch he
  | removed _ => exact hw.del _
  | @made staging _ _ raws _ _ => exact hw.generate staging (findable_dnsNames raws)
  | @moved dir file dst old files content hold hcontent hfiles =>
    refine (hdir dir fun e he => hw.staged dir old hold e (hfiles e he)).put dst (fun c h => ?_) fun _ h => nomatch h
    rw [← Node.file.inj h]
    exact hw.staged dir old hold _ hcontent

variable {host : String}

theorem provisioned_step (hw : Provisioned host w) {o : Op} (ho : o.Keeps) (c : Choice) :
    Provisioned host (w.step o c).2 := by
  obtain ⟨g, names, hkey, hcert, hnames, hhost⟩ := hw
  have hkeep {w' : World} (hnode : ∀ name c, w.node name = some (.file c) → w'.node name = some (.file c))
      (hgen : w'.generations = w.generations) : Provisioned host w' :=
    ⟨g, names, hnode _ _ hkey, hnode _ _ hcert, hgen ▸ hnames, hhost⟩
  have hne {name other : String} {c : Content} (h : w.node other = some (.file c))
      (hname : ∀ c, w.node name ≠ some (.file c)) : other ≠ name := by
    rintro rfl
    exact hname c h
  have hout := effect_step w ho.asks c
  generalize (w.step o c).2 = w' at hout ⊢
  cases hout with
  | same hentries hgen => exact hkeep (fun name c h => (congrArg (OrderedDict.get? · name) hentries).trans h) hgen
  | refilled hold _ =>
    exact hkeep (fun _ _ h => (World.node_put_of_ne _ _ (hne h (hold ▸ nofun))).trans h) rfl
  | created hfree _ =>
    exact hkeep (fun _ _ h => (World.node_put_of_ne _ _ (hne h (hfree ▸ nofun))).trans h) rfl
  | removed hold => exact hkeep (fun _ _ h => (World.node_del_of_ne _ (hne h (hold ▸ nofun))).trans h) rfl
  | made _ => exact ho.elim
  | moved _ _ _ => exact ho.elim

/-- The call does not fail, the command exits with 0, and `openssl` is found. -/
structure Choice.Works (c : Choice) : Prop where
  fails : c.fails = false
  code : c.code = 0
  openssl : c.openssl.getD "" ≠ ""

def Open (w : World) : Prop := ∀ files, w.node keyFile ≠ some (.dir files) ∧ w.node certFile ≠ some (.dir files)

theorem staging_ne {name : String} (hname : name.toList.head? ≠ some '.') (suffix : String) :
    stagingStem ++ suffix ≠ name := by
  rintro rfl
  have hstem : stagingStem.toList = '.' :: "admin-tls-".toList := by decide
  rw [String.toList_append, hstem, List.cons_append, List.head?_cons] at hname
  exact hname rfl

variable {o : Op}

theorem notDir_step {x : String} (hx : ∀ rest, stagingStem ++ rest ≠ x) (hw : ∀ files, w.node x ≠ some (.dir files))
    (ho : o.Asks) (c : Choice) : ∀ files, (w.step o c).2.node x ≠ some (.dir files) := by
  have hne {name : String} {files : List (String × Content)} (h : w.node name = some (.dir files)) : x ≠ name := by
    rintro rfl
    exact hw files h
  have hout := effect_step w ho c
  generalize (w.step o c).2 = w' at hout ⊢
  intro files
  cases hout with
  | same hentries _ =>
    rw [World.node, hentries]
    exact hw files
  | refilled hold _ =>
    rw [World.node_put_of_ne _ _ (hne hold)]
    exact hw files
  | created _ hname =>
    rw [World.node_put_of_ne _ _ (hname ▸ (hx _).symm)]
    exact hw files
  | removed hold =>
    rw [World.node_del_of_ne _ (hne hold)]
    exact hw files
  | made hold =>
    rw [World.node, World.generate, OrderedDict.get?_set_of_ne _ _ (hne hold)]
    exact hw files
  | @moved dir file dst old _ _ hold _ _ =>
    by_cases hdst : x = dst
    · rw [hdst, World.node_put_self]
      exact fun h => nomatch h
    · rw [World.node_put_of_ne _ _ hdst, World.node_put_of_ne _ _ (hne hold)]
      exact hw files

theorem open_step (hw : Open w) (ho : o.Asks) (c : Choice) : Open (w.step o c).2 := by
  have hkey := notDir_step (staging_ne (by decide)) (fun files => (hw files).1) ho c
  have hcert := notDir_step (staging_ne (by decide)) (fun files => (hw files).2) ho c
  exact fun files => ⟨hkey files, hcert files⟩

theorem isRealDir_eq_false {x : String} (h : ∀ files, w.node x ≠ some (.dir files)) : w.isRealDir x = false := by
  unfold World.isRealDir
  split
  · rename_i files hdir
    exact absurd hdir (h files)
  · rfl

theorem replace_works {dir file dst : String} {files : List (String × Content)} {content : Content}
    (hdir : w.node dir = some (.dir files)) (hfile : files.lookup file = some content)
    (hdst : ∀ files, w.node dst ≠ some (.dir files)) {c : Choice} (hc : c.Works) :
    (w.replace dir file dst c).1 = .ok () := by
  have hcontent : w.fileIn dir file = some content := by
    simpa only [World.fileIn, hdir] using hfile
  simp only [World.replace, hdir, hcontent, hc.fails, isRealDir_eq_false hdst, Bool.or_false, Bool.false_eq_true, if_false]

theorem request_works {staging subject : String} {san : List String} {files : List (String × Content)} {c : Choice}
    (hc : c.Works) (hdir : w.node staging = some (.dir files)) (hlength : subject.toList.length ≤ maxCommonName) :
    (w.request staging subject san c).1 = .ok (0, c.text) := by
  rw [World.request, hc.fails, if_neg Bool.false_ne_true, hdir]
  exact congrArg Prod.fst (if_pos ⟨hc.code, hlength⟩)

theorem done_works {c : Choice} (hc : c.Works) {allowed : Bool} (h : allowed = true) : World.done c allowed = .ok () := by
  rw [World.done, hc.fails, h]
  rfl

end Steps

section Phases

variable {host : String} {t : Journal} {A : Choice → Prop} {R K : Prop} {o : Op}

structure Guarded (host : String) (t : Journal) : Prop where
  labelled : Labelled t.state
  pair : Published t.log → Provisioned host t.state

def NoRequest (log : List Entry) : Prop := ∀ staging subject san r, (⟨.request staging subject san, r⟩ : Entry) ∉ log

/-- Before `admin.env` is written. Where `R`, nothing is in the way of a new pair; where `K`, the pair is there and no
other one was asked for. -/
structure Ready (host : String) (R K : Prop) (t : Journal) : Prop where
  labelled : Labelled t.state
  unpublished : ¬ Published t.log
  isOpen : R → Open t.state
  kept : K → Provisioned host t.state ∧ NoRequest t.log

structure Late (host : String) (K : Prop) (t : Journal) : Prop where
  labelled : Labelled t.state
  pair : Provisioned host t.state
  noRequest : K → NoRequest t.log

theorem Ready.guarded (ht : Ready host R K t) : Guarded host t := ⟨ht.labelled, fun h => absurd h ht.unpublished⟩

theorem Late.guarded (ht : Late host K t) : Guarded host t := ⟨ht.labelled, fun _ => ht.pair⟩

theorem noRequest_step (ht : NoRequest t.log) (ho : o.Keeps) (c : Choice) : NoRequest (journal.step t o c).2.log := by
  intro staging subject san r hmem
  rcases List.mem_append.mp hmem with hold | hnew
  · exact ht staging subject san r hold
  · obtain rfl : Op.request staging subject san = o := congrArg Sigma.fst (List.mem_singleton.mp hnew)
    exact ho

theorem ready_step (ht : Ready host R K t) (ho : o.Prepares) (hkeep : K → o.Keeps) (c : Choice) :
    Ready host R K (journal.step t o c).2 := by
  refine ⟨labelled_step ht.labelled ho.asks c, fun ⟨text, r, hmem⟩ => ?_,
    fun h => open_step (ht.isOpen h) ho.asks c, fun h => ?_⟩
  · rcases List.mem_append.mp hmem with hold | hnew
    · exact ht.unpublished ⟨text, r, hold⟩
    · obtain rfl : Op.writeEnv text = o := congrArg Sigma.fst (List.mem_singleton.mp hnew)
      exact ho
  · exact ⟨provisioned_step (ht.kept h).1 (hkeep h) c, noRequest_step (ht.kept h).2 (hkeep h) c⟩

theorem late_step (ht : Late host K t) (ho : o.Keeps) (c : Choice) : Late host K (journal.step t o c).2 :=
  ⟨labelled_step ht.labelled ho.asks c, provisioned_step ht.pair ho c, fun h => noRequest_step (ht.noRequest h) ho c⟩

theorem safe_ready {α : Type} {p : Run α} (hp : p.Within fun o => o.Prepares ∧ o.Keeps) (ht : Ready host R K t) :
    p.Safe journal A (Guarded host) (fun _ => Ready host R K) t :=
  (Prog.Within.safe hp ht fun _ _ c ho _ hu => ready_step hu ho.1 (fun _ => ho.2) c).mono
    (fun _ hu => hu.guarded) fun _ _ hu => hu

theorem safe_late (ho : o.Keeps) (ht : Late host K t) :
    (sys o).Safe journal A (Guarded host) (fun _ => Late host K) t := by
  intro c _
  have hstep := late_step ht ho c
  exact ⟨hstep.guarded, hstep⟩

theorem safe_raising {P E : Journal → Prop} {f : String → Failure} {p : Run Done}
    (hp : p.Safe journal A (Guarded host) (fun r u => (r = .ok () → P u) ∧ (r ≠ .ok () → E u)) t) :
    (raising f p).Safe journal A (Guarded host) (Prog.Ended (fun _ => P) (fun _ => E)) t := by
  apply hp.bind
  intro r u hu
  cases r with
  | error e => exact hu.2 nofun
  | ok _ => exact hu.1 rfl

theorem cleanupStaleStaging_within : cleanupStaleStaging.Within fun o => o.Prepares ∧ o.Keeps := by
  have hround (name : String) : (removeStale name).Within fun o => o.Prepares ∧ o.Keeps := by
    unfold removeStale
    split_ifs
    · trivial
    refine .opBind ⟨trivial, trivial⟩ fun (directory : Bool) => ?_
    split_ifs
    · trivial
    refine .opBind ⟨trivial, trivial⟩ fun (symlink : Bool) => ?_
    split_ifs
    · trivial
    exact ⟨⟨trivial, trivial⟩, fun _ => trivial⟩
  refine .opBind ⟨trivial, trivial⟩ ?_
  rintro (e | names)
  · trivial
  exact .forM fun name _ => hround name

theorem keypairReusable_within (candidates : List String) :
    (keypairReusable candidates).Within fun o => o.Prepares ∧ o.Keeps := by
  refine .opBind ⟨trivial, trivial⟩ fun (certLink : Bool) => ?_
  split_ifs
  · trivial
  refine .opBind ⟨trivial, trivial⟩ fun (keyLink : Bool) => ?_
  split_ifs
  · trivial
  refine .opBind ⟨trivial, trivial⟩ fun (certThere : Bool) => ?_
  split_ifs
  · trivial
  refine .opBind ⟨trivial, trivial⟩ fun (keyThere : Bool) => ?_
  split_ifs
  · trivial
  refine .opBind ⟨trivial, trivial⟩ fun (loaded : Bool) => ?_
  split_ifs
  · trivial
  have hcovers : (certCoversHost certFile (commonName candidates)).Within fun o => o.Prepares ∧ o.Keeps := by
    refine .opBind ⟨trivial, trivial⟩ ?_
    rintro (e | ⟨code, stdout⟩)
    · trivial
    · trivial
  refine .bind hcovers fun covered => ?_
  split_ifs
  · trivial
  refine .opBind ⟨trivial, trivial⟩ ?_
  rintro (e | ⟨code, text⟩)
  · trivial
  · trivial

theorem matching_eq_true {w : World} {cert key : String} (h : w.matching cert key = true) :
    ∃ g names, w.node key = some (.file (.key g)) ∧ w.node cert = some (.file (.cert g names)) := by
  unfold World.matching at h
  split at h
  · rename_i g names g' hcert hkey
    obtain rfl : g = g' := of_decide_eq_true h
    exact ⟨g, names, hkey, hcert⟩
  · cases h

def Made (host staging : String) (w : World) : Prop :=
  ∃ g names, w.node staging = some (.dir [(keyFile, .key g), (certFile, .cert g names)]) ∧
    w.generations[g]? = some names ∧ host ∈ names

def Half (host staging : String) (w : World) : Prop :=
  ∃ g names, w.node keyFile = some (.file (.key g)) ∧ w.node staging = some (.dir [(certFile, .cert g names)]) ∧
    w.generations[g]? = some names ∧ host ∈ names

theorem certFile_ne_keyFile : certFile ≠ keyFile := by decide

theorem fileIn_of_made {w : World} {staging file : String} (h : Made host staging w)
    (hfile : file = keyFile ∨ file = certFile) : (w.fileIn staging file).isSome = true := by
  obtain ⟨g, names, hdir, -, -⟩ := h
  have hne : (certFile == keyFile) = false := by decide
  rcases hfile with rfl | rfl
  · simp only [World.fileIn, hdir, List.lookup_cons_self, Option.isSome_some]
  · simp only [World.fileIn, hdir, List.lookup_cons, hne, BEq.rfl, Option.isSome_some]

variable {staging : String}

theorem half_of_made {w : World} (hstaging : staging ≠ keyFile) (hw : Made host staging w)
    (c : Choice) (hok : (w.replace staging keyFile keyFile c).1 = .ok ()) :
    Half host staging (w.replace staging keyFile keyFile c).2 := by
  obtain ⟨g, names, hdir, hgen, hhost⟩ := hw
  rw [replace_ok hdir List.lookup_cons_self hok]
  refine ⟨g, names, World.node_put_self _ _ _, ?_, hgen, hhost⟩
  rw [World.node_put_of_ne _ _ hstaging, World.node_put_self]
  have hrest : [(keyFile, Content.key g), (certFile, Content.cert g names)].filter (fun e => e.1 ≠ keyFile) =
      [(certFile, Content.cert g names)] := by
    simp [certFile_ne_keyFile]
  rw [hrest]

theorem provisioned_of_half {w : World} (hstaging : staging ≠ keyFile) (hw : Half host staging w)
    (c : Choice) (hok : (w.replace staging certFile certFile c).1 = .ok ()) :
    Provisioned host (w.replace staging certFile certFile c).2 := by
  obtain ⟨g, names, hkey, hdir, hgen, hhost⟩ := hw
  rw [replace_ok hdir List.lookup_cons_self hok]
  refine ⟨g, names, ?_, World.node_put_self _ _ _, hgen, hhost⟩
  rw [World.node_put_of_ne _ _ certFile_ne_keyFile.symm, World.node_put_of_ne _ _ hstaging.symm]
  exact hkey

/-- What `keypair_reusable` says of the world, which it does not change. -/
structure Judged (host : String) (R : Prop) (w : World) (r : Bool) (u : World) : Prop where
  state : u = w
  pair : r = true → Provisioned host w
  works : r = false → Provisioned host w → ¬ R

theorem safe_ask {β : Type} {w : World} {f : Res o → Run β} {Q : β → World → Prop} (hread : ∀ c, (w.step o c).2 = w)
    (hf : ∀ c, A c → (f (w.step o c).1).Safe machine A (· = w) Q w) : (sys o >>= f).Safe machine A (· = w) Q w := by
  intro c hc
  have hstate : (machine.step w o c).2 = w := hread c
  rw [hstate]
  exact ⟨rfl, hf c hc⟩

/-! `R` says that all calls work: then a run comes to its end. -/

variable (hworks : R → ∀ c, A c → c.Works)

include hworks

theorem safe_judge {w : World} (hw : Labelled w) (candidates : List String) :
    (keypairReusable candidates).Safe machine A (· = w) (Judged (commonName candidates) R w) w := by
  have hno (h : Provisioned (commonName candidates) w → ¬ R) :
      (pure false : Run Bool).Safe machine A (· = w) (Judged (commonName candidates) R w) w := ⟨rfl, nofun, fun _ => h⟩
  refine safe_ask (o := .islink certFile) (fun _ => rfl) fun c _ => ?_
  split_ifs with hlink
  · refine hno fun ⟨g, names, hkey, hcert, _⟩ => ?_
    simp [World.step, hcert] at hlink
  refine safe_ask (o := .islink keyFile) (fun _ => rfl) fun c _ => ?_
  split_ifs with hlink
  · refine hno fun ⟨g, names, hkey, hcert, _⟩ => ?_
    simp [World.step, hkey] at hlink
  refine safe_ask (o := .isfile certFile) (fun _ => rfl) fun c _ => ?_
  split_ifs with hmissing
  · refine hno fun ⟨g, names, hkey, hcert, _⟩ => ?_
    simp [World.step, hcert] at hmissing
  refine safe_ask (o := .isfile keyFile) (fun _ => rfl) fun c _ => ?_
  split_ifs with hmissing
  · refine hno fun ⟨g, names, hkey, hcert, _⟩ => ?_
    simp [World.step, hkey] at hmissing
  refine safe_ask (o := .loadCertChain certFile keyFile) (fun _ => rfl) fun c hc => ?_
  split_ifs with hfailed
  · refine hno fun ⟨g, names, hkey, hcert, _⟩ hr => ?_
    simp [World.step, World.matching, hkey, hcert, (hworks hr c hc).fails] at hfailed
  -- the chain loads: the two files are of one generation
  have hloaded : (!c.fails && w.matching certFile keyFile) = true := by simpa [World.step] using hfailed
  obtain ⟨g, names, hkey, hcert⟩ := matching_eq_true (Bool.and_eq_true_iff.mp hloaded).2
  have hgen : w.generations[g]? = some names := hw.file certFile _ hcert
  have hfind : findDns 0 (sanText names) = names := findDns_sanText (hw.findable names (List.mem_of_getElem? hgen))
  -- the printed names are those of the certificate
  have hcovers : (certCoversHost certFile (commonName candidates)).Safe machine A (· = w)
      (Judged (commonName candidates) R w) w := by
    refine safe_ask (o := .printSan certFile) (fun _ => rfl) fun c hc => ?_
    simp only [World.step, World.printSan, hcert]
    split_ifs with hfails hcode
    · exact hno fun _ hr => nomatch (hworks hr c hc).fails.symm.trans hfails
    · refine ⟨rfl, fun h => absurd ?_ hcode, fun _ _ hr => hcode (hworks hr c hc).code⟩
      exact of_decide_eq_true (Bool.and_eq_true_iff.mp h).1
    · refine ⟨rfl, fun h => ⟨g, names, hkey, hcert, hgen, ?_⟩, fun h ⟨_, _, _, hsame, _, hhost⟩ => ?_⟩
      · rw [Bool.and_eq_true, String.toList_ofList, hfind] at h
        exact List.contains_iff_mem.mp h.2
      · obtain ⟨rfl, rfl⟩ := Content.cert.inj (Node.file.inj (Option.some.inj (hsame.symm.trans hcert)))
        rw [String.toList_ofList, hfind, List.contains_iff_mem.mpr hhost] at h
        exact nomatch h
  apply Prog.Safe.bind hcovers
  rintro covered u ⟨rfl, hpair, hnone⟩
  split_ifs with huncovered
  · exact hno (hnone (by simpa using huncovered))
  have hpair := hpair (by simpa using huncovered)
  refine safe_ask (o := .checkEnd certFile) (fun _ => rfl) fun c hc => ?_
  simp only [World.step]
  split_ifs with hfails
  · exact hno fun _ hr => nomatch (hworks hr c hc).fails.symm.trans hfails
  · exact ⟨rfl, fun _ => hpair, fun h _ hr => of_decide_eq_false h (hworks hr c hc).code⟩

theorem safe_keypairReusable {candidates : List String} (hhost : host = commonName candidates) (ht : Ready host R K t) :
    (keypairReusable candidates).Safe journal A (Guarded host)
      (fun r u => Ready host R K u ∧ (r = true → Provisioned host u.state) ∧
        (r = false → Provisioned host u.state → ¬ R)) t := by
  have hjudge := (safe_judge hworks ht.labelled candidates).traced
  refine ((safe_ready (keypairReusable_within candidates) ht).conj hjudge).mono (fun _ h => h.1) ?_
  rintro r u ⟨hu, hstate, hpair, hnone⟩
  rw [hstate, hhost]
  exact ⟨hhost ▸ hu, hpair, hnone⟩

theorem safe_prepare {p : Run Done} (hp : p = makedirs ∨ p = chmodDir) (ht : Ready host R K t) :
    (raising .os p).Safe journal A (Guarded host) (Prog.Ended (fun _ => Ready host R K) (fun _ _ => ¬ R)) t := by
  refine safe_raising ?_
  rcases hp with rfl | rfl
  · intro c hc
    have hstep := ready_step ht (o := .makedirs) trivial (fun _ => trivial) c
    exact ⟨hstep.guarded, fun _ => hstep, fun hne hr => hne (done_works (hworks hr c hc) rfl)⟩
  · intro c hc
    have hstep := ready_step ht (o := .chmodDir) trivial (fun _ => trivial) c
    exact ⟨hstep.guarded, fun _ => hstep, fun hne hr => hne (done_works (hworks hr c hc) rfl)⟩

theorem safe_generateIn (ht : Ready host R False t) (hstaging : staging ≠ keyFile) {raws : List String}
    (hhost : host = commonName (distinctLabels raws))
    (hR : R → host.toList.length ≤ maxCommonName ∧ ∃ files, t.state.node staging = some (.dir files)) :
    (generateIn staging (distinctLabels raws)).Safe journal A (Guarded host)
      (Prog.Ended (fun _ u => Ready host R False u ∧ Provisioned host u.state) (fun _ u => Ready host R False u ∧ ¬ R)) t := by
  refine .bind (p := request staging (commonName (distinctLabels raws)) (sanEntries (distinctLabels raws)))
    (Q := fun r u => Ready host R False u ∧ (∀ text, r = .ok (0, text) → Made host staging u.state) ∧
      ((∀ text, r ≠ .ok (0, text)) → ¬ R)) (fun c hc => ?_) ?_
  · have hstep := ready_step ht
      (o := .request staging (commonName (distinctLabels raws)) (sanEntries (distinctLabels raws))) ⟨raws, rfl⟩ nofun c
    refine ⟨hstep.guarded, hstep, fun text hok => ?_, fun hne hr => ?_⟩
    · show Made host staging (t.state.request staging _ _ c).2
      rw [request_ok hok, filterMap_dnsOf]
      refine ⟨t.state.generations.length, _, OrderedDict.get?_set_self _ _ _, List.getElem?_concat_length, ?_⟩
      rw [hhost]
      exact commonName_mem_dnsNames _
    · obtain ⟨hlength, files, hdir⟩ := hR hr
      exact hne c.text (request_works (hworks hr c hc) hdir (hhost ▸ hlength))
  rintro (e | ⟨code, stderr⟩) u ⟨hu, hmade, hfail⟩
  · exact ⟨hu, hfail nofun⟩
  dsimp only
  split_ifs with hcode
  · exact ⟨hu, hfail fun text h => hcode (congrArg Prod.fst (Except.ok.inj h))⟩
  replace hmade : Made host staging u.state := hmade stderr (by rw [not_not.mp hcode])
  -- looking at the pair and setting its modes changes nothing
  have hthere {u : Journal} (hu : Ready host R False u) (hmade : Made host staging u.state) {file : String}
      (hfile : file = keyFile ∨ file = certFile) : (isfileIn staging file).Safe journal A (Guarded host)
        (fun r v => r = true ∧ Ready host R False v ∧ Made host staging v.state) u := by
    intro c _
    have hstep := ready_step hu (o := .isfileIn staging file) trivial nofun c
    exact ⟨hstep.guarded, fileIn_of_made hmade hfile, hstep, hmade⟩
  have hmode {u : Journal} (hu : Ready host R False u) (hmade : Made host staging u.state) {file : String}
      (hfile : file = keyFile ∨ file = certFile) : (raising .os (chmodIn staging file)).Safe journal A (Guarded host)
        (Prog.Ended (fun _ v => Ready host R False v ∧ Made host staging v.state)
          (fun _ v => Ready host R False v ∧ ¬ R)) u := by
    refine safe_raising fun c hc => ?_
    have hstep := ready_step hu (o := .chmodIn staging file) trivial nofun c
    refine ⟨hstep.guarded, fun _ => ⟨hstep, hmade⟩, fun hne => ⟨hstep, fun hr => hne ?_⟩⟩
    exact done_works (hworks hr c hc) (fileIn_of_made hmade hfile)
  refine .bind (hthere hu hmade (.inl rfl)) ?_
  rintro _ u ⟨rfl, hu, hmade⟩
  refine .bind (hthere hu hmade (.inr rfl)) ?_
  rintro _ u ⟨rfl, hu, hmade⟩
  refine .andThen (hmode hu hmade (.inl rfl)) fun _ u hu => ?_
  refine .andThen (hmode hu.1 hu.2 (.inr rfl)) fun _ u hu => ?_
  refine .andThen (Q := fun _ u => Ready host R False u ∧ Half host staging u.state) (safe_raising fun c hc => ?_)
    fun _ u hu => safe_raising fun c hc => ?_
  · have hstep := ready_step hu.1 (o := .replace staging keyFile keyFile) trivial nofun c
    refine ⟨hstep.guarded, fun hok => ⟨hstep, half_of_made hstaging hu.2 c hok⟩, fun hne => ⟨hstep, fun hr => hne ?_⟩⟩
    obtain ⟨g, names, hpair, -⟩ := hu.2
    exact replace_works hpair List.lookup_cons_self (fun files => (hu.1.isOpen hr files).1) (hworks hr c hc)
  · have hstep := ready_step hu.1 (o := .replace staging certFile certFile) trivial nofun c
    refine ⟨hstep.guarded, fun hok => ⟨hstep, provisioned_of_half hstaging hu.2 c hok⟩,
      fun hne => ⟨hstep, fun hr => hne ?_⟩⟩
    obtain ⟨g, names, -, hcert, -⟩ := hu.2
    exact replace_works hcert List.lookup_cons_self (fun files => (hu.1.isOpen hr files).2) (hworks hr c hc)

theorem safe_generateKeypair (ht : Ready host R False t) {raws : List String}
    (hhost : host = commonName (distinctLabels raws)) (hR : R → host.toList.length ≤ maxCommonName) :
    (generateKeypair (distinctLabels raws)).Safe journal A (Guarded host)
      (Prog.Ended (fun _ u => Labelled u.state ∧ Provisioned host u.state) (fun _ _ => ¬ R)) t := by
  refine .andThen (safe_prepare hworks (.inl rfl) ht) fun _ u hu => ?_
  refine .andThen (safe_prepare hworks (.inr rfl) hu) fun _ u hu => ?_
  refine .bind (p := mkdtemp stagingStem) (Q := fun r u => Ready host R False u ∧
    (∀ staging, r = .ok staging → staging ≠ keyFile ∧ u.state.node staging = some (.dir [])) ∧
      ((∀ staging, r ≠ .ok staging) → ¬ R)) (fun c hc => ?_) ?_
  · have hstep := ready_step hu (o := .mkdtemp stagingStem) rfl nofun c
    obtain ⟨rest, hrest⟩ := freeName_stem u.state stagingStem c.suffix
    refine ⟨hstep.guarded, hstep, fun staging hok => ?_, fun hne hr => hne (stagingStem ++ rest) ?_⟩
    · have hout : (u.state.mkdtemp stagingStem c).1 = .ok staging := hok
      show _ ∧ (u.state.mkdtemp stagingStem c).2.node staging = _
      unfold World.mkdtemp at hout ⊢
      split_ifs at hout ⊢
      rw [hrest] at hout ⊢
      rw [← Except.ok.inj hout]
      exact ⟨staging_ne (by decide) rest, World.node_put_self _ _ _⟩
    · show (u.state.mkdtemp stagingStem c).1 = _
      rw [World.mkdtemp, (hworks hr c hc).fails, if_neg Bool.false_ne_true, hrest]
  rintro (e | staging) u ⟨hu, hstaging, hfail⟩
  · exact hfail nofun
  obtain ⟨hne, hdir⟩ := hstaging staging rfl
  apply Prog.Safe.bind (safe_generateIn hworks hu hne hhost fun hr => ⟨hR hr, [], hdir⟩)
  -- the `finally` block keeps what the `try` block has left
  rintro (e | _) u hu c _
  · exact ⟨(ready_step hu.1 (o := .rmtree staging) trivial nofun c).guarded, hu.2⟩
  · have hstep := ready_step hu.1 (o := .rmtree staging) trivial nofun c
    exact ⟨hstep.guarded, hstep.labelled, provisioned_step hu.2 (o := .rmtree staging) trivial c⟩

theorem safe_provideKeypair (hK : K → R) (ht : Ready host R K t) {raws : List String}
    (hhost : host = commonName (distinctLabels raws)) (hR : R → host.toList.length ≤ maxCommonName) :
    (provideKeypair (distinctLabels raws)).Safe journal A (Guarded host)
      (Prog.Ended (fun _ => Late host K) (fun _ _ => ¬ R)) t := by
  apply Prog.Safe.bind (safe_keypairReusable hworks hhost ht)
  rintro reusable u ⟨hu, hpair, hnone⟩
  split_ifs with hreusable
  · exact ⟨hu.labelled, hpair hreusable, fun h => (hu.kept h).2⟩
  have hnew : ¬ K := fun h => hnone (Bool.eq_false_iff.mpr hreusable) (hu.kept h).1 (hK h)
  have hfresh : Ready host R False u := ⟨hu.labelled, hu.unpublished, hu.isOpen, nofun⟩
  refine (safe_generateKeypair hworks hfresh hhost hR).post fun r v hv => ?_
  cases r with
  | error e => exact hv
  | ok _ => exact ⟨hv.1, hv.2, fun h => absurd h hnew⟩

theorem safe_publish (ht : Late host K t) :
    publish.Safe journal A (Guarded host)
      (Prog.Ended (fun b u => b = true ∧ Late host K u ∧ u.state.env = some envText) (fun _ _ => ¬ R)) t := by
  have hmode {u : Journal} (hu : Late host K u) (f : String → Failure) {name : String}
      (hname : name = keyFile ∨ name = certFile) : (raising f (chmod name)).Safe journal A (Guarded host)
        (Prog.Ended (fun _ => Late host K) (fun _ _ => ¬ R)) u := by
    refine safe_raising fun c hc => ?_
    have hstep := late_step hu (o := .chmod name) trivial c
    refine ⟨hstep.guarded, fun _ => hstep, fun hne hr => hne (done_works (hworks hr c hc) ?_)⟩
    obtain ⟨g, names, hkey, hcert, -⟩ := hu.pair
    rcases hname with rfl | rfl
    · rw [hkey]
      rfl
    · rw [hcert]
      rfl
  have henv {u : Journal} (hu : Late host K u) : writeAdminEnv.Safe journal A (Guarded host)
      (Prog.Ended (fun _ v => Late host K v ∧ v.state.env = some envText) (fun _ _ => ¬ R)) u := by
    refine safe_raising (P := fun v => Late host K v ∧ v.state.env = some envText) fun c hc => ?_
    have hstep := late_step hu (o := .writeEnv envText) trivial c
    refine ⟨hstep.guarded, fun hok => ⟨hstep, ?_⟩, fun hne hr => hne ?_⟩
    · have hresult : (u.state.step (.writeEnv envText) c).1 = .ok () := hok
      show (u.state.step (.writeEnv envText) c).2.env = some envText
      simp only [World.step] at hresult ⊢
      split_ifs at hresult ⊢
      rfl
    · show (u.state.step (.writeEnv envText) c).1 = .ok ()
      simp only [World.step, (hworks hr c hc).fails, Bool.false_eq_true, if_false]
  refine .andThen (hmode ht _ (.inl rfl)) fun _ u hu => ?_
  refine .andThen (hmode hu _ (.inr rfl)) fun _ u hu => ?_
  refine .bind (safe_late (o := .chown keyFile) trivial hu) fun _ u hu => ?_
  refine .bind (safe_late (o := .chown certFile) trivial hu) fun _ u hu => ?_
  refine .andThen (henv hu) fun _ u hu => ?_
  intro c _
  have hstep := late_step hu.1 (o := .chown adminEnvPath) trivial c
  exact ⟨hstep.guarded, rfl, hstep, hu.2⟩

theorem safe_ensure (hK : K → R) {a : Args} (hR : R → a.openssl = none ∧ a.host.toList.length ≤ maxCommonName)
    (ht : Ready a.host R K t) : (ensure a).Safe journal A (Guarded a.host)
      (Prog.Ended (fun b u => b = true ∧ Late a.host K u ∧ u.state.env = some envText) (fun _ _ => ¬ R)) t := by
  have hfind : (findOpenssl a.openssl).Safe journal A (Guarded a.host)
      (fun openssl u => Ready a.host R K u ∧ (openssl.getD "" = "" → ¬ R)) t := by
    cases hopenssl : a.openssl with
    | some path => exact ⟨ht, fun _ hr => nomatch hopenssl.symm.trans (hR hr).1⟩
    | none =>
      intro c hc
      have hstep := ready_step ht (o := .which) trivial (fun _ => trivial) c
      exact ⟨hstep.guarded, hstep, fun hempty hr => (hworks hr c hc).openssl hempty⟩
  apply Prog.Safe.bind hfind
  rintro openssl u ⟨hu, hempty⟩
  split_ifs with hnone
  · exact hempty hnone
  refine .andThen (safe_prepare hworks (.inl rfl) hu) fun _ u hu => ?_
  refine .andThen (safe_prepare hworks (.inr rfl) hu) fun _ u hu => ?_
  refine .bind (safe_ready (p := chown tlsDir) ⟨⟨trivial, trivial⟩, fun _ => trivial⟩ hu) fun _ u hu => ?_
  refine .bind (safe_ready cleanupStaleStaging_within hu) fun _ u hu => ?_
  exact .andThen (safe_provideKeypair hworks hK hu rfl fun hr => (hR hr).2) fun _ u hu => safe_publish hworks hu

end Phases

def after (a : Args) (cs : List Choice) (w : World) : Option (Except Failure Bool) × Journal :=
  (ensure a).exec journal cs ⟨w, []⟩

/-- The worlds that runs can lead to. A loss of power may also undo or spoil what was not yet on the medium: whatever
keys and certificates are then there, each is of some generation. -/
inductive Reach (w0 : World) : World → Prop
  | start : Reach w0 w0
  | run {w : World} (a : Args) (cs : List Choice) : Reach w0 w → Reach w0 (after a cs w).2.state
  | loss {w w' : World} : Reach w0 w → w'.generations = w.generations → Labelled w' → Reach w0 w'

theorem published_nil : ¬ Published [] := fun ⟨_, _, h⟩ => absurd h List.not_mem_nil

theorem safe_any {w : World} (hw : Labelled w) (a : Args) :
    (ensure a).Safe journal (fun _ => True) (Guarded a.host)
      (Prog.Ended (fun b u => b = true ∧ Late a.host False u ∧ u.state.env = some envText) (fun _ _ => ¬ False)) ⟨w, []⟩ :=
  safe_ensure nofun id nofun ⟨hw, published_nil, nofun, nofun⟩

theorem labelled_of_reach {w0 w : World} (h0 : Labelled w0) (hw : Reach w0 w) : Labelled w := by
  induction hw with
  | start => exact h0
  | run a cs _ ih =>
    have hstart : Guarded a.host ⟨_, []⟩ := ⟨ih, fun h => absurd h published_nil⟩
    exact ((safe_any ih a).exec hstart fun _ _ => trivial).1.labelled
  | loss _ _ hlabelled _ => exact hlabelled

/-- After any runs and losses of power, a run that returns leaves a key and a certificate of one generation in their
places, as regular files, with the canonical name of the run in the certificate, and `admin.env`; and at every point of
a run that has begun to write `admin.env` the pair is there. -/
theorem returned_run_has_one_pair {w0 w : World} (h0 : Labelled w0) (hw : Reach w0 w) (a : Args) (cs : List Choice) :
    ((after a cs w).1 = some (.ok true) →
      Provisioned a.host (after a cs w).2.state ∧ (after a cs w).2.state.env = some envText) ∧
    (Published (after a cs w).2.log → Provisioned a.host (after a cs w).2.state) := by
  have hlabelled := labelled_of_reach h0 hw
  have hstart : Guarded a.host ⟨w, []⟩ := ⟨hlabelled, fun h => absurd h published_nil⟩
  have hsafe := (safe_any hlabelled a).exec hstart fun c (_ : c ∈ cs) => trivial
  refine ⟨fun h => ?_, hsafe.1.pair⟩
  obtain ⟨-, hlate, henv⟩ := hsafe.2 _ h
  exact ⟨hlate.pair, henv⟩

theorem labelled_empty : Labelled {} :=
  ⟨fun _ h => absurd h List.not_mem_nil, fun _ _ h => (nomatch h), fun _ _ h => (nomatch h)⟩

/-- A run for one name, and a run for another one that is cut between the two replacements. -/
def cutRun : Journal :=
  (after { configured := "camera" } (List.replicate 20 {})
    (after { configured := "old" } (List.replicate 60 {}) {}).2.state).2

/-- The cut leaves the key of one generation beside the certificate of another, and the next run makes a new pair. -/
theorem run_after_cut_has_one_pair :
    cutRun.state.node keyFile = some (.file (.key 1)) ∧
      cutRun.state.node certFile = some (.file (.cert 0 ["old", "old.local", "localhost"])) ∧
      (after { configured := "camera" } (List.replicate 60 {}) cutRun.state).1 = some (.ok true) ∧
      Provisioned "camera.local" (after { configured := "camera" } (List.replicate 60 {}) cutRun.state).2.state := by
  have hreturns : (after { configured := "camera" } (List.replicate 60 {}) cutRun.state).1 = some (.ok true) := by
    decide +kernel
  have hhost : Args.host { configured := "camera" } = "camera.local" := by decide +kernel
  have hreach : Reach {} cutRun.state := .run _ _ (.run _ _ .start)
  have hboth := returned_run_has_one_pair labelled_empty hreach { configured := "camera" } (List.replicate 60 {})
  refine ⟨by decide +kernel, by decide +kernel, hreturns, ?_⟩
  rw [← hhost]
  exact (hboth.1 hreturns).1

end PiBuddyCam.AdminTls
