import PiBuddyCam.AdminTrace

/-! Which handlers run, and for whom the admin password is verified. -/
namespace PiBuddyCam.Admin

def Policy.Protected (p : Policy) : Prop := p = .authenticated ∨ p = .reauthRequired ∨ p = .reauthWindowOnly

def Charges : Entry → Prop
  | ⟨.verify _ _ _ _, _⟩ | ⟨.recordFailure _ _, _⟩ | ⟨.recordSuccess _, _⟩ => True
  | _ => False

/-- Each request for a protected route validates its session, and then runs its handler. -/
def Begins : Entry → Prop
  | ⟨.validate _ _, _⟩ | ⟨.run _ _ _, _⟩ => True
  | _ => False

/-- A request that may reach the handler of a protected route. Its cookie names a session
of an earlier login that is within its lifetimes; `own` are the calls of this request
after the session was validated. -/
def Admitted (h : Host) (idle absolute : ℚ) (policy : Policy) (req : Request) (now : ℚ) (log : List Entry) : Prop :=
  ∃ csrf opened since own,
    Lives log (sessionToken h req) csrf opened (since ++ ⟨.validate (sessionToken h req) now, true⟩ :: own) ∧
    (∀ e ∈ own, ¬ Begins e) ∧ now - opened < absolute ∧ now - lastUse (sessionToken h req) opened since < idle ∧
    (changing (h.upper req.method) = true → csrfToken h req (parseBody h req) = csrf) ∧
    (policy = .reauthRequired → Reverified (sessionToken h req) now own ∨
      ∃ moment, now - moment < reauthWindowSeconds ∧ Reverified (sessionToken h req) moment since) ∧
    (policy = .reauthWindowOnly → (∀ e ∈ own, ¬ Charges e) ∧
      ∃ moment, now - moment < reauthWindowSeconds ∧ Reverified (sessionToken h req) moment since)

def Permitted (h : Host) (idle absolute : ℚ) : Entry → List Entry → Prop
  | ⟨.run route req now, _⟩, log => route.policy.Protected → Admitted h idle absolute route.policy req now log
  | ⟨.verify peer now _ _, _⟩, log => ∃ rest retryAfter, log = rest ++ [⟨.check peer now, (true, retryAfter)⟩]
  | _, _ => True

/-- What stays the same along a run: the source of the tokens, the host and the lifetimes of sessions. -/
structure Setting where
  tokens : ℕ → String
  h : Host
  idle : ℚ
  absolute : ℚ

/-- The log is in order and the tables agree with it. -/
structure Sound (S : Setting) (t : Journal) : Prop where
  order : Trace.OnlyAfter (Permitted S.h S.idle S.absolute) t.log
  kept : Kept S.tokens S.idle S.absolute t

def Op.Quiet : Op → Prop
  | .newSession _ | .reauthSet _ _ | .verify _ _ _ _ | .run _ _ _ => False
  | _ => True

def Op.Free : Op → Prop
  | .verify _ _ _ _ | .recordFailure _ _ | .recordSuccess _ => False
  | _ => True

/-- The calls of a request that leave its session as it is. -/
def Op.Stays : Op → Prop
  | .csrfFor _ | .check _ _ | .recordFailure _ _ | .recordSuccess _ | .reauthGet _ | .reauthPop _ | .pruneReauth _
  | .verify _ _ _ _ => True
  | _ => False

/-- The session that a login opened, and the log since. -/
structure Login where
  csrf : String
  opened : ℚ
  since : List Entry

/-- This request's session was validated; `own` are the calls since. -/
structure Entered (S : Setting) (req : Request) (now : ℚ) (l : Login) (own : List Entry) (t : Journal) : Prop where
  lives : Lives t.log (sessionToken S.h req) l.csrf l.opened
    (l.since ++ ⟨.validate (sessionToken S.h req) now, true⟩ :: own)
  own : ∀ e ∈ own, ¬ Begins e
  absolute : now - l.opened < S.absolute
  idle : now - lastUse (sessionToken S.h req) l.opened l.since < S.idle
  session : ∃ r, t.state.store.sessions.get? (sessionToken S.h req) = some r ∧ r.csrf = l.csrf
  window : ∀ moment, t.state.reauthAt.get? (sessionToken S.h req) = some moment →
    Reverified (sessionToken S.h req) moment l.since

/-- No call since has touched the password or the limiter. -/
def Uncharged (S : Setting) (req : Request) (now : ℚ) (l : Login) (t : Journal) : Prop :=
  ∃ own, Entered S req now l own t ∧ ∀ e ∈ own, ¬ Charges e

section Steps

variable {S : Setting} {t u : Journal} {req : Request} {now : ℚ} {l : Login} {own : List Entry} {o : Op} {r : Res o}
  {c : Choice} {policy : Policy}

theorem log_step (hstep : (journal S.tokens).step t o c = (r, u)) : u.log = t.log ++ [⟨o, r⟩] := by
  obtain rfl : ((journal S.tokens).step t o c).1 = r := congrArg Prod.fst hstep
  obtain rfl : ((journal S.tokens).step t o c).2 = u := congrArg Prod.snd hstep
  rfl

theorem Sound.step (ht : Sound S t) (hstep : (journal S.tokens).step t o c = (r, u))
    (hpermitted : Permitted S.h S.idle S.absolute ⟨o, r⟩ t.log)
    (hkept : Kept S.tokens S.idle S.absolute ((journal S.tokens).step t o c).2) : Sound S u := by
  rw [hstep] at hkept
  exact ⟨log_step hstep ▸ ht.order.snoc hpermitted, hkept⟩

theorem Sound.quiet (ht : Sound S t) (hstep : (journal S.tokens).step t o c = (r, u)) (ho : o.Quiet) : Sound S u := by
  have hshrinks : o.Shrinks := by
    cases o with
    | newSession | reauthSet => exact ho
    | _ => trivial
  refine ht.step hstep ?_ (kept_step hshrinks ht.kept c)
  cases o with
  | newSession | reauthSet | verify | run => exact ho.elim
  | _ => trivial

theorem forall_mem_snoc {P : Entry → Prop} {l : List Entry} {e : Entry} (hl : ∀ x ∈ l, P x) (he : P e) :
    ∀ x ∈ l ++ [e], P x :=
  List.forall_mem_append.mpr ⟨hl, List.forall_mem_singleton.mpr he⟩

theorem entered_of_validate (ht : Kept S.tokens S.idle S.absolute t)
    (hvalid : (t.state.store.validate (sessionToken S.h req) now).1 = true) (c : Choice) :
    ∃ l, Uncharged S req now l ((journal S.tokens).step t (.validate (sessionToken S.h req) now) c).2 := by
  obtain ⟨r, hr, hlive, hstore⟩ : ∃ r, t.state.store.sessions.get? (sessionToken S.h req) = some r ∧
      r.expired now = false ∧ (t.state.store.validate (sessionToken S.h req) now).2 =
        { t.state.store with sessions := t.state.store.sessions.set (sessionToken S.h req) { r with lastSeen := now } } := by
    rcases t.state.store.validate_cases (sessionToken S.h req) now with ⟨-, hcase⟩ | ⟨r, hr, ⟨-, hcase⟩ | ⟨hlive, hcase⟩⟩
    · exact absurd hvalid (by simp [hcase])
    · exact absurd hvalid (by simp [hcase])
    · exact ⟨r, hr, hlive, congrArg Prod.snd hcase⟩
  obtain ⟨hidle, habs, since, hlives, hlast, hwindow⟩ := ht.session _ r hr
  obtain ⟨habsolute, hidling⟩ : now - r.created < r.absoluteTtl ∧ now - r.lastSeen < r.idleTtl := by
    simpa [Session.expired] using hlive
  refine ⟨⟨r.csrf, r.created, since⟩, [], ?_, List.forall_mem_nil _⟩
  change Entered S req now ⟨r.csrf, r.created, since⟩ []
    ⟨{ t.state with store := (t.state.store.validate (sessionToken S.h req) now).2 },
      t.log ++ [⟨.validate (sessionToken S.h req) now, (t.state.store.validate (sessionToken S.h req) now).1⟩]⟩
  rw [hvalid, hstore]
  refine ⟨hlives.append _ ?_, List.forall_mem_nil _, habs ▸ habsolute, ?_, ⟨_, OrderedDict.get?_set_self _ _ _, rfl⟩,
    hwindow⟩
  · exact fun e he => List.mem_singleton.mp he ▸ id
  · rwa [hlast, ← hidle]

theorem Op.Stays.tables (tokens : ℕ → String) (ho : o.Stays) (s : Tables) (c : Choice) :
    (s.step tokens o c).2.store = s.store ∧
      ∀ token moment, (s.step tokens o c).2.reauthAt.get? token = some moment → s.reauthAt.get? token = some moment := by
  cases o with
  | reauthPop token' =>
    exact ⟨rfl, fun token moment hm => ((OrderedDict.get?_pop_eq_some_iff _ token' token moment).mp hm).1⟩
  | pruneReauth now => exact ⟨rfl, fun token moment hm => ((OrderedDict.get?_filter _ _ token moment).mp hm).1⟩
  | csrfFor | check | recordFailure | recordSuccess | reauthGet | verify => exact ⟨rfl, fun _ _ hm => hm⟩
  | _ => exact ho.elim

theorem Op.Stays.not_ends (ho : o.Stays) (r : Res o) (token : String) :
    ¬ Ends token ⟨o, r⟩ ∧ ¬ Begins ⟨o, r⟩ := by
  cases o with
  | revoke | evictOldest | validate | run => exact ho.elim
  | _ => exact ⟨id, id⟩

theorem Op.Free.not_charges (ho : o.Free) (r : Res o) : ¬ Charges ⟨o, r⟩ := by
  cases o with
  | verify | recordFailure | recordSuccess => exact ho.elim
  | _ => exact id

theorem Entered.step (ht : Entered S req now l own t) (hstep : (journal S.tokens).step t o c = (r, u)) (ho : o.Stays) :
    Entered S req now l (own ++ [⟨o, r⟩]) u := by
  obtain ⟨hstore, hwindow⟩ := ho.tables S.tokens t.state c
  obtain ⟨hends, hbegins⟩ := ho.not_ends r (sessionToken S.h req)
  obtain rfl : ((journal S.tokens).step t o c).2 = u := congrArg Prod.snd hstep
  refine ⟨?_, forall_mem_snoc ht.own hbegins, ht.absolute, ht.idle, ?_, fun moment hm => ht.window moment (hwindow _ _ hm)⟩
  · have hmore := ht.lives.append [⟨o, r⟩] fun e he => List.mem_singleton.mp he ▸ hends
    rwa [List.append_assoc, List.cons_append, ← log_step hstep] at hmore
  · obtain ⟨r, hr, hcsrf⟩ := ht.session
    exact ⟨r, (congrArg (fun s : SessionStore => s.sessions.get? _) hstore).trans hr, hcsrf⟩

theorem Uncharged.step (ht : Uncharged S req now l t) (hstep : (journal S.tokens).step t o c = (r, u)) (ho : o.Stays)
    (hfree : o.Free) : Uncharged S req now l u := by
  obtain ⟨own, he, hown⟩ := ht
  exact ⟨_, he.step hstep ho, forall_mem_snoc hown (hfree.not_charges r)⟩

theorem Admitted.snoc {h : Host} {idle absolute : ℚ} {log : List Entry} {e : Entry}
    (ha : Admitted h idle absolute policy req now log) (hends : ¬ Ends (sessionToken h req) e)
    (hbegins : ¬ Begins e) (he : ¬ Charges e) : Admitted h idle absolute policy req now (log ++ [e]) := by
  obtain ⟨csrf, opened, since, own, hlives, hown, habs, hidle, hcsrf, hreauth, hwindow⟩ := ha
  refine ⟨csrf, opened, since, own ++ [e], ?_, forall_mem_snoc hown hbegins, habs, hidle, hcsrf, fun hp => ?_,
    fun hp => ⟨forall_mem_snoc (hwindow hp).1 he, (hwindow hp).2⟩⟩
  · have hmore := hlives.append [e] fun x hx => List.mem_singleton.mp hx ▸ hends
    rwa [List.append_assoc, List.cons_append] at hmore
  · exact (hreauth hp).imp_left fun hr => hr.append [e]

end Steps

section Programs

variable {S : Setting} {t : Journal} {req : Request} {now : ℚ} {l : Login} {own : List Entry} {α : Type}

def Keeps (S : Setting) (p : Run α) (Q : α → Journal → Prop) (t : Journal) : Prop :=
  p.Safe (journal S.tokens) (fun _ => True) (Sound S) (fun a u => Sound S u ∧ Q a u) t

variable {Q : α → Journal → Prop}

theorem keeps_call {o : Op} {f : Res o → Run α}
    (hf : ∀ c r u, (journal S.tokens).step t o c = (r, u) → Sound S u ∧ Keeps S (f r) Q u) :
    Keeps S (sys o >>= f) Q t :=
  fun c _ => hf c _ _ rfl

theorem keeps_ask {o : Op} {f : Res o → Run α} (ht : Sound S t) (ho : o.Quiet)
    (hf : ∀ c r u, (journal S.tokens).step t o c = (r, u) → Sound S u → Keeps S (f r) Q u) :
    Keeps S (sys o >>= f) Q t :=
  keeps_call fun c r u hstep => ⟨ht.quiet hstep ho, hf c r u hstep (ht.quiet hstep ho)⟩

theorem keeps_pure (ht : Sound S t) {a : α} (hQ : Q a t) : Keeps S (pure a) Q t := ⟨ht, hQ⟩

theorem Keeps.bind {β : Type} {p : Run α} {f : α → Run β} {R : β → Journal → Prop} (hp : Keeps S p Q t)
    (hf : ∀ a u, Sound S u → Q a u → Keeps S (f a) R u) : Keeps S (p >>= f) R t :=
  Prog.Safe.bind hp fun a u hu => hf a u hu.1 hu.2

theorem keeps_quiet {p : Run α} (hp : p.Within Op.Quiet) (ht : Sound S t) : Keeps S p (fun _ _ => True) t :=
  (Prog.Within.safe hp ht fun _ _ _ ho _ hu => hu.quiet rfl ho).post fun _ _ hu => ⟨hu, trivial⟩

def Fresh (S : Setting) (req : Request) (now : ℚ) (l : Login) : Prop :=
  ∃ moment, now - moment < reauthWindowSeconds ∧ Reverified (sessionToken S.h req) moment l.since

theorem keeps_reauthFresh (ht : Sound S t) (he : Uncharged S req now l t) :
    Keeps S (reauthFresh now (sessionToken S.h req)) (fun fresh u => Uncharged S req now l u ∧
      (fresh = true → Fresh S req now l)) t := by
  refine keeps_ask ht trivial fun c (window : Option ℚ) u hstep hu => ?_
  have heu := he.step hstep trivial trivial
  cases window with
  | none => exact keeps_pure hu ⟨heu, (nomatch ·)⟩
  | some moment =>
    have hwindow : t.state.reauthAt.get? (sessionToken S.h req) = some moment := congrArg Prod.fst hstep
    dsimp only
    split_ifs with hlate
    · refine keeps_ask hu trivial fun c r v hstep hv => ?_
      exact keeps_pure hv ⟨heu.step hstep trivial trivial, (nomatch ·)⟩
    · obtain ⟨own, hentered, -⟩ := he
      exact keeps_pure hu ⟨heu, fun _ => ⟨moment, not_le.mp hlate, hentered.window moment hwindow⟩⟩

theorem keeps_reauthOk (ht : Sound S t) {retryAfter : ℚ} {rest : List Entry}
    (hlog : t.log = rest ++ [⟨.check req.peerIp now, (true, retryAfter)⟩]) (he : Entered S req now l own t)
    (password : Option Value) :
    Keeps S (reauthOk req now (sessionToken S.h req) password) (fun ok u => ok = true → ∃ password,
      Entered S req now l (own ++ [⟨.verify req.peerIp now (some (sessionToken S.h req)) password, true⟩]) u ∧
        u.log = t.log ++ [⟨.verify req.peerIp now (some (sessionToken S.h req)) password, true⟩]) t := by
  unfold reauthOk
  split
  · rename_i password
    split_ifs
    · exact keeps_pure ht (nomatch ·)
    · refine keeps_call (f := pure) fun c (ok : Bool) u hstep => ?_
      have hu := ht.step hstep ⟨rest, retryAfter, hlog⟩ (kept_step (o := .verify _ _ _ _) trivial ht.kept c)
      refine ⟨hu, hu, ?_⟩
      rintro rfl
      exact ⟨.str password, he.step hstep trivial, log_step hstep⟩
  · exact keeps_pure ht (nomatch ·)

theorem keeps_reauthenticate (ht : Sound S t) (he : Entered S req now l own t)
    (hcsrf : changing (S.h.upper req.method) = true → csrfToken S.h req (parseBody S.h req) = l.csrf) (body : BodyData) :
    Keeps S (reauthenticate req now (sessionToken S.h req) body) (fun denied u =>
      denied = none → Admitted S.h S.idle S.absolute .reauthRequired req now u.log) t := by
  refine keeps_ask ht trivial fun c (verdict : Bool × ℚ) u hstep hu => ?_
  obtain ⟨allowed, retryAfter⟩ := verdict
  cases allowed with
  | false => exact keeps_pure hu (nomatch ·)
  | true =>
    refine Keeps.bind (keeps_reauthOk hu (log_step hstep) (he.step hstep trivial) _) fun ok v hv hok => ?_
    cases ok with
    | false => exact keeps_ask hv trivial fun c r w _ hw => keeps_pure hw (nomatch ·)
    | true =>
      obtain ⟨password, hev, hlog⟩ := hok rfl
      refine keeps_ask hv trivial fun c _ w hstep hw => ?_
      have hew := hev.step hstep trivial
      have hsession : (w.state.store.sessions.get? (sessionToken S.h req)).isSome := by
        obtain ⟨r, hr, _⟩ := hew.session
        exact Option.isSome_iff_exists.mpr ⟨r, hr⟩
      have hwlog : w.log = u.log ++ [⟨.verify req.peerIp now (some (sessionToken S.h req)) password, true⟩,
          ⟨.recordSuccess req.peerIp, ()⟩] := by
        rw [log_step hstep, hlog, List.append_assoc]
        rfl
      have hadmitted : Admitted S.h S.idle S.absolute .reauthRequired req now w.log := by
        refine ⟨_, _, _, _, hew.lives, hew.own, hew.absolute, hew.idle, hcsrf, fun _ => Or.inl ⟨req.peerIp, password, ?_⟩,
          (nomatch ·)⟩
        exact List.mem_append_left _ (List.mem_append_right _ List.mem_cons_self)
      refine keeps_call fun c _ x hstep => ?_
      have hx := hw.step hstep trivial (hw.kept.reauthSet hwlog hsession c)
      exact ⟨hx, keeps_pure hx fun _ => log_step hstep ▸ hadmitted.snoc id id id⟩

theorem keeps_authorizeReauth (ht : Sound S t) (he : Uncharged S req now l t)
    (hcsrf : changing (S.h.upper req.method) = true → csrfToken S.h req (parseBody S.h req) = l.csrf) (policy : Policy)
    (body : BodyData) :
    Keeps S (authorizeReauth req now policy (sessionToken S.h req) body) (fun denied u =>
      denied = none → Admitted S.h S.idle S.absolute policy req now u.log) t := by
  have hadmitted {u : Journal} (hu : Uncharged S req now l u)
      (hfresh : policy = .reauthRequired ∨ policy = .reauthWindowOnly → Fresh S req now l) :
      Admitted S.h S.idle S.absolute policy req now u.log := by
    obtain ⟨own, hu, hown⟩ := hu
    exact ⟨_, _, _, _, hu.lives, hu.own, hu.absolute, hu.idle, hcsrf, fun hp => Or.inr (hfresh (Or.inl hp)),
      fun hp => ⟨hown, hfresh (Or.inr hp)⟩⟩
  unfold authorizeReauth
  split
  · rename_i hpolicy
    refine Keeps.bind (keeps_reauthFresh ht he) fun fresh u hu hfresh => ?_
    obtain ⟨heu, hfresh⟩ := hfresh
    cases fresh with
    | true => exact keeps_pure hu fun _ => hadmitted heu fun _ => hfresh rfl
    | false =>
      by_cases hwindow : policy = .reauthWindowOnly
      · rw [if_neg Bool.false_ne_true, if_pos hwindow]
        exact keeps_pure hu (nomatch ·)
      · rw [if_neg Bool.false_ne_true, if_neg hwindow, hpolicy.resolve_right hwindow]
        obtain ⟨own, heu, -⟩ := heu
        exact keeps_reauthenticate hu heu hcsrf body
  · rename_i hpolicy
    exact keeps_pure ht fun _ => hadmitted he fun hp => absurd hp hpolicy

theorem keeps_validateCsrf (ht : Sound S t) (he : Uncharged S req now l t) (given : String) :
    Keeps S (validateCsrf (sessionToken S.h req) given) (fun verdict u => Uncharged S req now l u ∧
      (verdict = some true → given = l.csrf)) t := by
  refine keeps_ask ht trivial fun c (expected : Option String) u hstep hu => ?_
  have heu := he.step hstep trivial trivial
  obtain rfl : expected = some l.csrf := by
    obtain ⟨own, hentered, -⟩ := he
    obtain ⟨r, hr, hcsrf⟩ := hentered.session
    have hres : t.state.store.csrfFor (sessionToken S.h req) = expected := congrArg Prod.fst hstep
    rw [← hres, ← hcsrf, SessionStore.csrfFor, hr, Option.map_some]
  dsimp only
  split_ifs
  · exact keeps_pure hu ⟨heu, fun hv => (beq_iff_eq.mp (Option.some.inj hv)).symm⟩
  · exact keeps_pure hu ⟨heu, (nomatch ·)⟩

theorem keeps_authorize (ht : Sound S t) (policy : Policy) :
    Keeps S (authorize S.h req now policy (parseBody S.h req)) (fun denied u =>
      denied = none → Admitted S.h S.idle S.absolute policy req now u.log) t := by
  refine keeps_ask ht trivial fun c (valid : Bool) u hstep hu => ?_
  cases valid with
  | false => exact keeps_pure hu (nomatch ·)
  | true =>
    obtain ⟨l, heu⟩ := entered_of_validate ht.kept (congrArg Prod.fst hstep) c
    rw [hstep] at heu
    refine keeps_ask hu trivial fun c _ v hstep hv => ?_
    have hev := heu.step hstep trivial trivial
    split_ifs with hchanging
    · refine Keeps.bind (keeps_validateCsrf hv hev _) fun verdict w hw hverdict => ?_
      match verdict with
      | none => exact keeps_pure hw (nomatch ·)
      | some false => exact keeps_pure hw (nomatch ·)
      | some true => exact keeps_authorizeReauth hw hverdict.1 (fun _ => hverdict.2 rfl) policy _
    · exact keeps_authorizeReauth hv hev (fun hc => absurd hc hchanging) policy _

theorem keeps_handleLogin (htokens : Function.Injective S.tokens) (ht : Sound S t) (body : BodyData) :
    Keeps S (handleLogin req now body) (fun _ _ => True) t := by
  refine keeps_ask ht trivial fun c (verdict : Bool × ℚ) u hcheck hu => ?_
  obtain ⟨allowed, retryAfter⟩ := verdict
  cases allowed with
  | false => exact keeps_pure hu trivial
  | true =>
    refine keeps_call fun c (ok : Bool) v hverify => ?_
    have hv := hu.step hverify ⟨_, _, log_step hcheck⟩ (kept_step (o := .verify _ _ _ _) trivial hu.kept c)
    refine ⟨hv, ?_⟩
    cases ok with
    | false => exact keeps_quiet ⟨trivial, fun _ => trivial⟩ hv
    | true =>
      refine keeps_ask hv trivial fun c _ w hsuccess hw => ?_
      refine Keeps.bind (Q := fun _ _ => True) ?_ fun token y hy _ => keeps_quiet ⟨trivial, fun _ => trivial⟩ hy
      refine keeps_ask hw trivial fun c _ x hprune hx => ?_
      have hlog : x.log = u.log ++ [⟨.verify req.peerIp now none ((body.lookup "password").getD .null), true⟩,
          ⟨.recordSuccess req.peerIp, ()⟩, ⟨.prune now, ()⟩] := by
        rw [log_step hprune, log_step hsuccess, log_step hverify, List.append_assoc, List.append_assoc]
        rfl
      refine keeps_call fun c session y hnew => ?_
      have hy := hx.step hnew trivial (hx.kept.newSession htokens hlog c)
      refine ⟨hy, keeps_quiet ⟨trivial, fun (full : Bool) => ?_⟩ hy⟩
      cases full
      · trivial
      · exact ⟨trivial, fun _ => trivial⟩

theorem validateCsrf_within {P : Op → Prop} {token given : String} (hcsrf : P (.csrfFor token)) :
    (validateCsrf token given).Within P := by
  refine .opBind hcsrf fun (expected : Option String) => ?_
  cases expected with
  | none => trivial
  | some expected =>
    dsimp only
    split_ifs <;> trivial

theorem handleMqttTest_within {h : Host} {P : Op → Prop} (cfg : Config) (body : BodyData)
    (hvalidate : P (.validate (sessionToken h req) now)) (hcsrf : P (.csrfFor (sessionToken h req))) :
    (handleMqttTest h cfg req now body).Within P := by
  unfold handleMqttTest
  split
  · trivial
  split
  · trivial
  split
  · refine .bind ?_ fun verdict => ?_
    · unfold authenticatedAdminSession
      dsimp only
      split_ifs
      · trivial
      · refine .opBind hvalidate fun (valid : Bool) => ?_
        cases valid
        · trivial
        · exact validateCsrf_within hcsrf
    · match verdict with
      | none | some false | some true => trivial
  · trivial

theorem keeps_runHandler (htokens : Function.Injective S.tokens) (ht : Sound S t) (cfg : Config) {route : Route}
    (hadmitted : route.policy.Protected → Admitted S.h S.idle S.absolute route.policy req now t.log) (body : BodyData) :
    Keeps S (runHandler S.h cfg req now route body) (fun _ _ => True) t := by
  refine keeps_call fun c _ u hstep => ?_
  have hu := ht.step hstep hadmitted (kept_step (o := .run _ _ _) trivial ht.kept c)
  refine ⟨hu, ?_⟩
  unfold callHandler
  split
  · exact keeps_handleLogin htokens hu body
  · exact keeps_quiet ⟨trivial, fun _ => ⟨trivial, fun _ => trivial⟩⟩ hu
  · exact keeps_quiet (handleMqttTest_within cfg body trivial trivial) hu
  · exact keeps_pure hu trivial

theorem keeps_dispatch (htokens : Function.Injective S.tokens) (ht : Sound S t) (cfg : Config) (req : Request) (now : ℚ) :
    Keeps S (dispatch S.h cfg req now) (fun _ _ => True) t := by
  unfold dispatch
  split
  · exact keeps_pure ht trivial
  split
  · split_ifs <;> exact keeps_pure ht trivial
  rename_i route _
  have hopen {u : Journal} (hu : Sound S u) (hpolicy : ¬ route.policy.Protected) :
      Keeps S (runHandler S.h cfg req now route (parseBody S.h req)) (fun _ _ => True) u :=
    keeps_runHandler htokens hu cfg (fun hp => absurd hp hpolicy) _
  have hauth {u : Journal} (hu : Sound S u) (policy : Policy) (hpolicy : route.policy.Protected → policy = route.policy)
      {f : Option Response → Run Response} (hdenied : ∀ denied, f (some denied) = pure denied)
      (hgranted : f none = runHandler S.h cfg req now route (parseBody S.h req)) :
      Keeps S (authorize S.h req now policy (parseBody S.h req) >>= f) (fun _ _ => True) u := by
    refine Keeps.bind (keeps_authorize hu policy) fun denied v hv hadmitted => ?_
    cases denied with
    | some denied =>
      rw [hdenied]
      exact keeps_pure hv trivial
    | none =>
      rw [hgranted]
      exact keeps_runHandler htokens hv cfg (fun hp => hpolicy hp ▸ hadmitted rfl) _
  unfold serveRoute
  split
  · exact hopen ht (by simp [Policy.Protected, *])
  · refine keeps_ask ht trivial fun c (available : Bool) v _ hv => ?_
    cases available with
    | true => exact hopen hv (by simp [Policy.Protected, *])
    | false =>
      rw [if_neg Bool.false_ne_true]
      split_ifs <;> exact keeps_pure hv trivial
  · exact hauth ht _ (fun _ => rfl) (fun _ => rfl) rfl
  · exact hauth ht _ (fun _ => rfl) (fun _ => rfl) rfl
  · exact hauth ht _ (fun _ => rfl) (fun _ => rfl) rfl
  · have hnot : ¬ route.policy.Protected := by simp [Policy.Protected, *]
    refine keeps_ask ht trivial fun c (available : Bool) v _ hv => ?_
    cases available with
    | true => exact hopen hv hnot
    | false => exact hauth hv .authenticated (fun hp => absurd hp hnot) (fun _ => rfl) rfl

variable {h : Host}

theorem authorize_within_free (body : BodyData) : (authorize h req now .reauthWindowOnly body).Within Op.Free := by
  have hreauth (token : String) : (authorizeReauth req now .reauthWindowOnly token body).Within Op.Free := by
    refine .bind ?_ fun fresh => ?_
    · refine .opBind trivial fun (window : Option ℚ) => ?_
      cases window with
      | none => trivial
      | some moment =>
        dsimp only
        split_ifs
        · exact ⟨trivial, fun _ => trivial⟩
        · trivial
    · cases fresh <;> trivial
  refine .opBind trivial fun (valid : Bool) => ?_
  cases valid with
  | false => trivial
  | true =>
    refine .opBind trivial fun _ => ?_
    split_ifs
    · refine .bind (validateCsrf_within trivial) fun verdict => ?_
      match verdict with
      | none | some false => trivial
      | some true => exact hreauth _
    · exact hreauth _

theorem windowOnly_ne_login : ∀ route ∈ routes, route.policy = .reauthWindowOnly → route.handler ≠ .login := by
  decide

theorem dispatch_within_free (cfg : Config) {route : Route}
    (hroute : matchRoute (requestMethod h req) (requestPath req) = some route)
    (hpolicy : route.policy = .reauthWindowOnly) : (dispatch h cfg req now).Within Op.Free := by
  have hlogin := windowOnly_ne_login route (List.mem_of_find?_eq_some hroute) hpolicy
  unfold dispatch
  split
  · trivial
  rw [hroute]
  dsimp only
  rw [serveRoute, hpolicy]
  refine .bind (authorize_within_free _) fun denied => ?_
  cases denied with
  | some denied => trivial
  | none =>
    refine .opBind trivial fun _ => ?_
    unfold callHandler
    split
    · exact absurd ‹_› hlogin
    · exact ⟨trivial, fun _ => ⟨trivial, fun _ => trivial⟩⟩
    · exact handleMqttTest_within cfg _ trivial trivial
    · trivial

end Programs

end PiBuddyCam.Admin
