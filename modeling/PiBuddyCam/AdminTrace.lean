import PiBuddyCam.AdminCore
import PiBuddyCam.TraceOrder

/-! What the log of the admin core says about a session, and that the tables agree
with it. -/
namespace PiBuddyCam.Admin

def loginCalls (peer : String) (password : Value) (opened : ℚ) (token csrf : String) : List Entry :=
  [⟨.verify peer opened none password, true⟩, ⟨.recordSuccess peer, ()⟩, ⟨.prune opened, ()⟩,
    ⟨.newSession opened, (token, csrf)⟩]

def Ends (token : String) : Entry → Prop
  | ⟨.revoke t, _⟩ => t = token
  | ⟨.evictOldest, evicted⟩ => evicted = some token
  | _ => False

def useOf (token : String) : Entry → Option ℚ
  | ⟨.validate t now, (valid : Bool)⟩ => if valid = true ∧ t = token then some now else none
  | _ => none

def lastUse (token : String) (opened : ℚ) (since : List Entry) : ℚ :=
  ((since.filterMap (useOf token)).getLast?).getD opened

/-- A login returned the token, and the session was neither logged out nor evicted
`since`. -/
structure Lives (log : List Entry) (token csrf : String) (opened : ℚ) (since : List Entry) : Prop where
  login : ∃ before peer password, log = before ++ (loginCalls peer password opened token csrf ++ since)
  kept : ∀ e ∈ since, ¬ Ends token e

def Reverified (token : String) (moment : ℚ) (since : List Entry) : Prop :=
  ∃ peer password, (⟨.verify peer moment (some token) password, true⟩ : Entry) ∈ since

/-- What the log says about an entry of the session table and its re-auth window. -/
def Backed (log : List Entry) (token : String) (r : Session) (window : Option ℚ) : Prop :=
  ∃ since, Lives log token r.csrf r.created since ∧ lastUse token r.created since = r.lastSeen ∧
    ∀ moment, window = some moment → Reverified token moment since

theorem Lives.append {log since : List Entry} {token csrf : String} {opened : ℚ}
    (hlives : Lives log token csrf opened since) (more : List Entry) (hmore : ∀ e ∈ more, ¬ Ends token e) :
    Lives (log ++ more) token csrf opened (since ++ more) := by
  obtain ⟨⟨before, peer, password, rfl⟩, hkept⟩ := hlives
  refine ⟨⟨before, peer, password, by simp only [List.append_assoc]⟩, fun e he => ?_⟩
  exact (List.mem_append.mp he).elim (hkept e) (hmore e)

variable {token : String}

theorem lastUse_snoc_of_none {e : Entry} (he : useOf token e = none) (opened : ℚ)
    (since : List Entry) : lastUse token opened (since ++ [e]) = lastUse token opened since := by
  rw [lastUse, List.filterMap_append, List.filterMap_cons_none he, List.filterMap_nil, List.append_nil, lastUse]

theorem lastUse_snoc_validate (token : String) (opened now : ℚ) (since : List Entry) :
    lastUse token opened (since ++ [⟨.validate token now, true⟩]) = now := by
  have huse : useOf token ⟨.validate token now, true⟩ = some now := if_pos ⟨rfl, rfl⟩
  rw [lastUse, List.filterMap_append, List.filterMap_cons_some huse, List.filterMap_nil, List.getLast?_append]
  rfl

theorem Reverified.append {moment : ℚ} {since : List Entry} (h : Reverified token moment since)
    (more : List Entry) : Reverified token moment (since ++ more) := by
  obtain ⟨peer, password, hmem⟩ := h
  exact ⟨peer, password, List.mem_append_left more hmem⟩

theorem Backed.snoc {log : List Entry} {r : Session} {window window' : Option ℚ} {e : Entry}
    (h : Backed log token r window) (hends : ¬ Ends token e) (huse : useOf token e = none)
    (hwindow : ∀ moment, window' = some moment → window = some moment) : Backed (log ++ [e]) token r window' := by
  obtain ⟨since, hlives, hlast, hreauth⟩ := h
  refine ⟨since ++ [e], hlives.append _ fun x hx => List.mem_singleton.mp hx ▸ hends, ?_, ?_⟩
  · rw [lastUse_snoc_of_none huse, hlast]
  · exact fun moment hm => (hreauth moment (hwindow moment hm)).append [e]

structure Kept (tokens : ℕ → String) (idle absolute : ℚ) (t : Journal) : Prop where
  idleTtl : t.state.store.idleTtl = idle
  absoluteTtl : t.state.store.absoluteTtl = absolute
  session : ∀ token r, t.state.store.sessions.get? token = some r →
    r.idleTtl = idle ∧ r.absoluteTtl = absolute ∧ Backed t.log token r (t.state.reauthAt.get? token)
  drawn : ∀ token, (t.state.store.sessions.get? token).isSome ∨ (t.state.reauthAt.get? token).isSome →
    ∃ i < t.state.drawn, token = tokens i

section Steps

variable {tokens : ℕ → String} {idle absolute : ℚ} {t : Journal}

theorem Kept.shrink (h : Kept tokens idle absolute t) {s : Tables} {e : Entry}
    (hidle : s.store.idleTtl = t.state.store.idleTtl) (habs : s.store.absoluteTtl = t.state.store.absoluteTtl)
    (hdrawn : s.drawn = t.state.drawn)
    (hsessions : ∀ token r, s.store.sessions.get? token = some r →
      t.state.store.sessions.get? token = some r ∧ ¬ Ends token e ∧ useOf token e = none)
    (hreauth : ∀ token moment, s.reauthAt.get? token = some moment → t.state.reauthAt.get? token = some moment) :
    Kept tokens idle absolute ⟨s, t.log ++ [e]⟩ where
  idleTtl := hidle.trans h.idleTtl
  absoluteTtl := habs.trans h.absoluteTtl
  session token r hr := by
    obtain ⟨hold, hends, huse⟩ := hsessions token r hr
    obtain ⟨h1, h2, hbacked⟩ := h.session token r hold
    exact ⟨h1, h2, hbacked.snoc hends huse (hreauth token)⟩
  drawn token htoken := by
    rw [hdrawn]
    refine h.drawn token (htoken.imp (fun hs => ?_) fun hw => ?_)
    · obtain ⟨r, hr⟩ := Option.isSome_iff_exists.mp hs
      exact Option.isSome_iff_exists.mpr ⟨r, (hsessions token r hr).1⟩
    · obtain ⟨moment, hm⟩ := Option.isSome_iff_exists.mp hw
      exact Option.isSome_iff_exists.mpr ⟨moment, hreauth token moment hm⟩

variable {now : ℚ}

theorem Kept.validate (h : Kept tokens idle absolute t) (token : String) (now : ℚ) (c : Choice) :
    Kept tokens idle absolute ((journal tokens).step t (.validate token now) c).2 := by
  change Kept tokens idle absolute ⟨{ t.state with store := (t.state.store.validate token now).2 },
    t.log ++ [⟨.validate token now, (t.state.store.validate token now).1⟩]⟩
  rcases t.state.store.validate_cases token now with ⟨-, hvalid⟩ | ⟨r, hr, ⟨-, hvalid⟩ | ⟨-, hvalid⟩⟩ <;> rw [hvalid]
  · exact h.shrink rfl rfl rfl (fun other r hr => ⟨hr, id, rfl⟩) fun _ _ hm => hm
  · refine h.shrink rfl rfl rfl (fun other r hr => ?_) fun _ _ hm => hm
    exact ⟨((OrderedDict.get?_pop_eq_some_iff _ token other r).mp hr).1, id, rfl⟩
  · refine ⟨h.idleTtl, h.absoluteTtl, fun other r' hr' => ?_, fun other hother => ?_⟩
    · rw [OrderedDict.get?_set] at hr'
      by_cases he : other = token
      · subst he
        rw [if_pos rfl] at hr'
        obtain rfl := Option.some.inj hr'
        obtain ⟨hidle, habs, since, hlives, _, hreauth⟩ := h.session other r hr
        refine ⟨hidle, habs, since ++ [⟨.validate other now, true⟩], ?_, ?_, ?_⟩
        · exact hlives.append _ fun e he => List.mem_singleton.mp he ▸ id
        · exact lastUse_snoc_validate other r.created now since
        · exact fun moment hm => (hreauth moment hm).append _
      · rw [if_neg he] at hr'
        obtain ⟨hidle, habs, hbacked⟩ := h.session other r' hr'
        exact ⟨hidle, habs, hbacked.snoc id (if_neg fun hu => he hu.2.symm) fun _ hm => hm⟩
    · refine h.drawn other (hother.imp_left fun hsome => ?_)
      rw [OrderedDict.get?_set] at hsome
      by_cases he : other = token
      · rw [he, hr]
        rfl
      · rwa [if_neg he] at hsome

def Op.Shrinks : Op → Prop
  | .newSession _ | .reauthSet _ _ => False
  | _ => True

theorem kept_step {o : Op} (ho : o.Shrinks) (h : Kept tokens idle absolute t) (c : Choice) :
    Kept tokens idle absolute ((journal tokens).step t o c).2 := by
  have hsame {e : Entry} (hends : ∀ token, ¬ Ends token e) (huse : ∀ token, useOf token e = none) (limiter : LoginRateLimiter) :
      Kept tokens idle absolute ⟨{ t.state with limiter := limiter }, t.log ++ [e]⟩ :=
    h.shrink rfl rfl rfl (fun token r hr => ⟨hr, hends token, huse token⟩) fun _ _ hm => hm
  cases o with
  | newSession now => exact ho.elim
  | reauthSet token now => exact ho.elim
  | validate token now => exact h.validate token now c
  | csrfFor | overfull | check | recordFailure | recordSuccess | reauthGet | verify | setupAvailable | run =>
    exact hsame (fun _ => id) (fun _ => rfl) _
  | prune now =>
    refine h.shrink rfl rfl rfl (fun token r hr => ⟨?_, id, rfl⟩) fun _ _ hm => hm
    exact ((OrderedDict.get?_filter _ _ token r).mp hr).1
  | revoke token' =>
    refine h.shrink rfl rfl rfl (fun token r hr => ?_) fun _ _ hm => hm
    obtain ⟨hr, hne⟩ := (OrderedDict.get?_pop_eq_some_iff _ token' token r).mp hr
    exact ⟨hr, fun he => hne he.symm, rfl⟩
  | evictOldest =>
    change Kept tokens idle absolute ⟨{ t.state with store := t.state.store.oldest.elim t.state.store t.state.store.drop },
      t.log ++ [⟨.evictOldest, t.state.store.oldest⟩]⟩
    cases t.state.store.oldest with
    | none => exact h.shrink rfl rfl rfl (fun token r hr => ⟨hr, (nomatch ·), rfl⟩) fun _ _ hm => hm
    | some token' =>
      refine h.shrink rfl rfl rfl (fun token r hr => ?_) fun _ _ hm => hm
      obtain ⟨hr, hne⟩ := (OrderedDict.get?_pop_eq_some_iff _ token' token r).mp hr
      exact ⟨hr, fun he => hne (Option.some.inj he).symm, rfl⟩
  | reauthPop token' =>
    refine h.shrink rfl rfl rfl (fun token r hr => ⟨hr, id, rfl⟩) fun token moment hm => ?_
    exact ((OrderedDict.get?_pop_eq_some_iff _ token' token moment).mp hm).1
  | pruneReauth now =>
    refine h.shrink rfl rfl rfl (fun token r hr => ⟨hr, id, rfl⟩) fun token moment hm => ?_
    exact ((OrderedDict.get?_filter _ _ token moment).mp hm).1

theorem le_firstFree (s : SessionStore) (tokens : ℕ → String) (rounds n : ℕ) : n ≤ s.firstFree tokens rounds n := by
  induction rounds generalizing n with
  | zero => exact Nat.le_refl n
  | succ rounds ih =>
    rw [SessionStore.firstFree]
    split_ifs
    · exact (Nat.le_succ n).trans (ih (n+1))
    · exact Nat.le_refl n

theorem Kept.newSession (h : Kept tokens idle absolute t) (htokens : Function.Injective tokens) {peer : String}
    {password : Value} {before : List Entry}
    (hlog : t.log = before ++ [⟨.verify peer now none password, true⟩, ⟨.recordSuccess peer, ()⟩, ⟨.prune now, ()⟩])
    (c : Choice) : Kept tokens idle absolute ((journal tokens).step t (.newSession now) c).2 := by
  set n := t.state.store.firstFree tokens t.state.store.sessions.entries.length t.state.drawn with hn
  have hle : t.state.drawn ≤ n := le_firstFree _ _ _ _
  have hfresh {token : String} (hdrawn : ∃ i < t.state.drawn, token = tokens i) : token ≠ tokens n := by
    rintro rfl
    obtain ⟨i, hi, he⟩ := hdrawn
    exact absurd (htokens he) (by omega)
  change Kept tokens idle absolute
    ⟨{ t.state with store := t.state.store.insert (tokens n) (tokens (n+1)) now, drawn := n+2 },
      t.log ++ [⟨.newSession now, (tokens n, tokens (n+1))⟩]⟩
  refine ⟨h.idleTtl, h.absoluteTtl, fun other r hr => ?_, fun other hother => ?_⟩
  · rw [SessionStore.insert, OrderedDict.get?_set] at hr
    by_cases he : other = tokens n
    · subst he
      rw [if_pos rfl] at hr
      obtain rfl := Option.some.inj hr
      refine ⟨h.idleTtl, h.absoluteTtl, [], ⟨⟨before, peer, password, ?_⟩, List.forall_mem_nil _⟩, rfl, fun m hm => ?_⟩
      · rw [hlog, List.append_assoc]
        rfl
      · exact absurd rfl (hfresh (h.drawn _ (Or.inr (Option.isSome_iff_exists.mpr ⟨m, hm⟩))))
    · rw [if_neg he] at hr
      obtain ⟨hidle, habs, hbacked⟩ := h.session other r hr
      exact ⟨hidle, habs, hbacked.snoc id rfl fun _ hm => hm⟩
  · rw [SessionStore.insert, OrderedDict.get?_set] at hother
    by_cases he : other = tokens n
    · exact ⟨n, Nat.lt_add_of_pos_right (by decide), he⟩
    · rw [if_neg he] at hother
      obtain ⟨i, hi, htoken⟩ := h.drawn other hother
      exact ⟨i, show i < n+2 by omega, htoken⟩

theorem Lives.suffix {log before tail since : List Entry} {token csrf : String} {opened : ℚ}
    (h : Lives log token csrf opened since) (hlog : log = before ++ tail)
    (htail : ∀ now r, (⟨.newSession now, r⟩ : Entry) ∉ tail) : tail <:+ since := by
  obtain ⟨⟨start, peer, password, hstart⟩, _⟩ := h
  have hsince : since <:+ log := ⟨start ++ loginCalls peer password opened token csrf, by rw [hstart, List.append_assoc]⟩
  rcases List.suffix_or_suffix_of_suffix hsince ⟨before, hlog.symm⟩ with hshort | hlong
  · obtain ⟨mid, rfl⟩ := hshort
    have hmid : before ++ mid = start ++ loginCalls peer password opened token csrf := by
      have hsame : before ++ mid ++ since = start ++ loginCalls peer password opened token csrf ++ since := by
        rw [List.append_assoc, List.append_assoc, ← hlog, hstart]
      exact List.append_cancel_right hsame
    rcases List.eq_nil_or_concat' mid with rfl | ⟨mid, last, rfl⟩
    · exact List.suffix_rfl
    · have hlast := congrArg List.getLast? hmid
      rw [← List.append_assoc, List.getLast?_concat, List.getLast?_append] at hlast
      obtain rfl : last = ⟨.newSession opened, (token, csrf)⟩ := Option.some.inj hlast
      exact absurd (by simp) (htail opened (token, csrf))
  · exact hlong

theorem Kept.reauthSet (h : Kept tokens idle absolute t) {peer token : String} {password : Value}
    {before : List Entry}
    (hlog : t.log = before ++ [⟨.verify peer now (some token) password, true⟩, ⟨.recordSuccess peer, ()⟩])
    (hsession : (t.state.store.sessions.get? token).isSome) (c : Choice) :
    Kept tokens idle absolute ((journal tokens).step t (.reauthSet token now) c).2 := by
  change Kept tokens idle absolute ⟨{ t.state with reauthAt := t.state.reauthAt.set token now },
    t.log ++ [⟨.reauthSet token now, ()⟩]⟩
  refine ⟨h.idleTtl, h.absoluteTtl, fun other r hr => ?_, fun other hother => ?_⟩
  · obtain ⟨hidle, habs, hbacked⟩ := h.session other r hr
    refine ⟨hidle, habs, ?_⟩
    rw [OrderedDict.get?_set]
    split_ifs with he
    · subst he
      obtain ⟨since, hlives, hlast, _⟩ := hbacked
      have hnew (now' : ℚ) (r' : String × String) : (⟨.newSession now', r'⟩ : Entry) ∉
          [⟨.verify peer now (some other) password, true⟩, ⟨.recordSuccess peer, ()⟩] := by
        intro hmem
        rcases List.mem_cons.mp hmem with he | he
        · cases congrArg Sigma.fst he
        · cases congrArg Sigma.fst (List.mem_singleton.mp he)
      have htail := (hlives.suffix hlog hnew).subset List.mem_cons_self
      refine ⟨since ++ [⟨.reauthSet other now, ()⟩], hlives.append _ ?_, ?_, fun m hm => ?_⟩
      · exact fun e he => List.mem_singleton.mp he ▸ id
      · rw [lastUse_snoc_of_none rfl, hlast]
      · obtain rfl := Option.some.inj hm
        exact Reverified.append ⟨peer, password, htail⟩ _
    · exact hbacked.snoc id rfl fun _ hm => hm
  · refine h.drawn other ?_
    by_cases he : other = token
    · exact Or.inl (he ▸ hsession)
    · dsimp only at hother
      rwa [OrderedDict.get?_set_of_ne _ _ he] at hother

end Steps

end PiBuddyCam.Admin
