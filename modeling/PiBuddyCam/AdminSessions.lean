import PiBuddyCam.AdminCore
import PiBuddyCam.ClockedRuns
import Mathlib.Data.List.Chain
import Mathlib.Tactic.NormNum

/-! The table of sessions over whole runs of `create`, `validate` and `revoke`: which sessions are alive
is told by the history alone. -/
namespace PiBuddyCam.Admin

namespace SessionStore

/-- What `create` does once it has drawn a token: the new entry, and the eviction when there are too
many. The evicted token comes with it. -/
def place (s : SessionStore) (token csrf : String) (now : ℚ) : SessionStore × Option String :=
  let s := s.insert token csrf now
  if (s.sessions.entries.length : ℤ) > s.maxSessions then (s.oldest.elim s s.drop, s.oldest) else (s, none)

/-- The loop of `create` over the tokens it draws; `none` while all of them are taken. -/
def draw (s : SessionStore) (draws : List String) : Option String :=
  draws.find? fun token => (s.sessions.get? token).isNone

variable {s : SessionStore} {now : ℚ}

theorem place_full {token csrf : String}
    (h : ((s.insert token csrf now).sessions.entries.length : ℤ) > (s.insert token csrf now).maxSessions) :
    s.place token csrf now = ((s.insert token csrf now).oldest.elim (s.insert token csrf now)
      (s.insert token csrf now).drop, (s.insert token csrf now).oldest) := if_pos h

theorem place_room {token csrf : String}
    (h : ¬ ((s.insert token csrf now).sessions.entries.length : ℤ) > (s.insert token csrf now).maxSessions) :
    s.place token csrf now = (s.insert token csrf now, none) := if_neg h

end SessionStore

inductive SessionCall where
  | create (now : ℚ) (draws : List String) (csrf : String)
  | validate (now : ℚ) (token : String)
  | revoke (token : String)

def SessionCall.time : SessionCall → Option ℚ
  | .create now _ _ | .validate now _ => some now
  | .revoke _ => none

/-- What happened to sessions: `used` is a `validate` that succeeded. -/
inductive SessionEvent where
  | created (token : String) (now : ℚ) (evicted : Option String)
  | used (token : String) (now : ℚ)
  | revoked (token : String)
  deriving DecidableEq

/-- The event ends the session that `token` stood for: it is revoked, evicted, or created anew. -/
def SessionEvent.Ends (token : String) : SessionEvent → Prop
  | .created t _ evicted => t = token ∨ evicted = some token
  | .used _ _ => False
  | .revoked t => t = token

def SessionEvent.useOf (token : String) : SessionEvent → Option ℚ
  | .used t now => if t = token then some now else none
  | _ => none

def usesOf (token : String) (log : List SessionEvent) : List ℚ := log.filterMap (SessionEvent.useOf token)

structure SessionRun where
  store : SessionStore
  log : List SessionEvent := []

namespace SessionRun

def call (w : SessionRun) : SessionCall → SessionRun
  | .create now draws csrf =>
    let pruned := w.store.prune now
    match pruned.draw draws with
    | none => { w with store := pruned }
    | some token => ⟨(pruned.place token csrf now).1, w.log ++ [.created token now (pruned.place token csrf now).2]⟩
  | .validate now token =>
    ⟨(w.store.validate token now).2, if (w.store.validate token now).1 then w.log ++ [.used token now] else w.log⟩
  | .revoke token => ⟨w.store.drop token, w.log ++ [.revoked token]⟩

def after (w : SessionRun) (calls : List SessionCall) : SessionRun := calls.foldl call w

theorem after_append (w : SessionRun) (calls : List SessionCall) (c : SessionCall) :
    w.after (calls ++ [c]) = (w.after calls).call c := by
  rw [after, List.foldl_append]
  rfl

end SessionRun

/-- The session that `token` stands for after one more event: when it was created, and the times of its uses. -/
def follow (token : String) (x : Option (ℚ × List ℚ)) : SessionEvent → Option (ℚ × List ℚ)
  | .created t now evicted => if evicted = some token then none else if t = token then some (now, []) else x
  | .used t now => if t = token then x.map fun p => (p.1, p.2 ++ [now]) else x
  | .revoked t => if t = token then none else x

def followed (token : String) (log : List SessionEvent) : Option (ℚ × List ℚ) := log.foldl (follow token) none

section Followed

variable {token : String} {log : List SessionEvent} {e : SessionEvent}

theorem followed_snoc (token : String) (log : List SessionEvent) (e : SessionEvent) :
    followed token (log ++ [e]) = follow token (followed token log) e := by
  rw [followed, List.foldl_append]
  rfl

theorem follow_of_not_ends (he : ¬ e.Ends token) (c : ℚ) (us : List ℚ) :
    follow token (some (c, us)) e = some (c, us ++ usesOf token [e]) := by
  cases e with
  | created t now evicted =>
    rw [SessionEvent.Ends, not_or] at he
    rw [follow, if_neg he.2, if_neg he.1]
    simp [usesOf, SessionEvent.useOf]
  | used t now =>
    by_cases ht : t = token <;> simp [follow, usesOf, SessionEvent.useOf, ht]
  | revoked t =>
    have ht : t ≠ token := he
    simp [follow, usesOf, SessionEvent.useOf, ht]

theorem follow_eq_some {x : Option (ℚ × List ℚ)} {p : ℚ × List ℚ} (h : follow token x e = some p) :
    (∃ c evicted, e = .created token c evicted ∧ evicted ≠ some token ∧ p = (c, [])) ∨ ¬ e.Ends token ∧ x.isSome := by
  cases e with
  | created t now evicted =>
    rw [follow] at h
    split_ifs at h with hev ht
    · exact Or.inl ⟨now, evicted, by rw [ht], hev, (Option.some.inj h).symm⟩
    · exact Or.inr ⟨not_or.mpr ⟨ht, hev⟩, by rw [h]; rfl⟩
  | used t now =>
    refine Or.inr ⟨id, ?_⟩
    rw [follow] at h
    split_ifs at h
    · obtain ⟨q, hq, -⟩ := Option.map_eq_some_iff.mp h
      rw [hq]
      rfl
    · rw [h]
      rfl
  | revoked t =>
    rw [follow] at h
    split_ifs at h with ht
    exact Or.inr ⟨ht, by rw [h]; rfl⟩

/-- The session was created at `c`, nothing ended it since, and `us` are the times of its uses. -/
theorem followed_eq_some_iff {c : ℚ} {us : List ℚ} : followed token log = some (c, us) ↔
    ∃ past evicted later, log = past ++ .created token c evicted :: later ∧ evicted ≠ some token ∧
      (∀ e ∈ later, ¬ e.Ends token) ∧ us = usesOf token later := by
  constructor
  · intro h
    induction log using List.reverseRecOn generalizing us with
    | nil => cases h
    | append_singleton log e ih =>
      rw [followed_snoc] at h
      rcases follow_eq_some h with ⟨c', evicted, rfl, hev, hp⟩ | ⟨hends, hsome⟩
      · cases hp
        exact ⟨log, evicted, [], rfl, hev, nofun, rfl⟩
      · obtain ⟨⟨c', us'⟩, hold⟩ := Option.isSome_iff_exists.mp hsome
        rw [hold, follow_of_not_ends hends] at h
        cases h
        obtain ⟨past, evicted, later, rfl, hev, hlater, rfl⟩ := ih hold
        refine ⟨past, evicted, later ++ [e], by simp, hev, ?_, by simp [usesOf]⟩
        exact List.forall_mem_append.mpr ⟨hlater, List.forall_mem_singleton.mpr hends⟩
  · rintro ⟨past, evicted, later, rfl, hev, hlater, rfl⟩
    induction later using List.reverseRecOn with
    | nil => rw [followed_snoc, follow, if_neg hev, if_pos rfl, usesOf, List.filterMap_nil]
    | append_singleton later e ih =>
      rw [List.forall_mem_append, List.forall_mem_singleton] at hlater
      rw [← List.cons_append, ← List.append_assoc, followed_snoc, ih hlater.1, follow_of_not_ends hlater.2]
      simp [usesOf]

end Followed

def ShortGap (idle : ℚ) (a b : ℚ) : Prop := b - a < idle

def latestUse (c : ℚ) (us : List ℚ) : ℚ := us.getLast?.getD c

theorem latestUse_append (c now : ℚ) (us : List ℚ) : latestUse c (us ++ [now]) = now := by
  simp [latestUse]

theorem shortGaps_append {idle c now : ℚ} {us : List ℚ} :
    List.IsChain (ShortGap idle) (c :: us ++ [now]) ↔
      List.IsChain (ShortGap idle) (c :: us) ∧ now - latestUse c us < idle := by
  rw [List.isChain_append, List.getLast?_cons]
  simp [ShortGap, latestUse]

def Lapsed (idle absolute now c : ℚ) (us : List ℚ) : Prop := absolute ≤ now - c ∨ idle ≤ now - latestUse c us

/-- The table has what the history says, except for a session that has lapsed. -/
def Agrees (idle absolute now : ℚ) : Option Session → Option (ℚ × List ℚ) → Prop
  | none, none => True
  | none, some (c, us) => Lapsed idle absolute now c us
  | some _, none => False
  | some r, some (c, us) => (r.idleTtl = idle ∧ r.absoluteTtl = absolute) ∧ r.created = c ∧
      r.lastSeen = latestUse c us ∧ r.lastSeen ≤ now ∧ List.IsChain (ShortGap idle) (c :: us)

structure Tracks (idle absolute : ℚ) (s : SessionStore) (log : List SessionEvent) (now : ℚ) : Prop where
  idleTtl : s.idleTtl = idle
  absoluteTtl : s.absoluteTtl = absolute
  agrees : ∀ t, Agrees idle absolute now (s.sessions.get? t) (followed t log)

section Tracking

variable {idle absolute : ℚ} {log : List SessionEvent} {now clock : ℚ} {r : Session} {x : Option (ℚ × List ℚ)}

theorem Agrees.later {entry : Option Session} (h : Agrees idle absolute now entry x) (hle : now ≤ clock) :
    Agrees idle absolute clock entry x := by
  match entry, x with
  | none, none => trivial
  | none, some (c, us) =>
    rcases h with habs | hidle
    · exact .inl (habs.trans (sub_le_sub_right hle c))
    · exact .inr (hidle.trans (sub_le_sub_right hle _))
  | some r, some (c, us) => exact ⟨h.1, h.2.1, h.2.2.1, h.2.2.2.1.trans hle, h.2.2.2.2⟩

theorem Agrees.seen (h : Agrees idle absolute now (some r) x) : r.lastSeen ≤ now := by
  match x with
  | some (c, us) => exact h.2.2.2.1

theorem Agrees.expired_iff {c : ℚ} {us : List ℚ} (h : Agrees idle absolute now (some r) (some (c, us))) :
    r.expired now = true ↔ Lapsed idle absolute now c us := by
  obtain ⟨⟨hidle, habs⟩, hcreated, hlast, -⟩ := h
  rw [Session.expired, habs, hidle, hlast, hcreated]
  simp [Lapsed]

/-- An expired entry may go. -/
theorem Agrees.expire (h : Agrees idle absolute now (some r) x) (hexp : r.expired now = true) :
    Agrees idle absolute now none x := by
  match x with
  | some (c, us) => exact h.expired_iff.mp hexp

theorem Tracks.prune {s : SessionStore} (h : Tracks idle absolute s log now) :
    Tracks idle absolute (s.prune now) log now := by
  refine ⟨h.idleTtl, h.absoluteTtl, fun t => ?_⟩
  have hold := h.agrees t
  cases hkept : (s.prune now).sessions.get? t with
  | some r => rwa [((OrderedDict.get?_filter _ _ _ _).mp hkept).1] at hold
  | none =>
    cases hget : s.sessions.get? t with
    | none => rwa [hget] at hold
    | some r =>
      rw [hget] at hold
      apply hold.expire
      by_contra hlive
      have hkeep : (s.prune now).sessions.get? t = some r :=
        (OrderedDict.get?_filter _ _ _ _).mpr ⟨hget, by simp [hlive]⟩
      cases hkept.symm.trans hkeep

end Tracking

/-- There is no room, and every session was seen later than `now`: a new session would be the one that goes.
With a clock that only moves on this is no state of a table with room for one session. -/
def Crowded (s : SessionStore) (now : ℚ) : Prop :=
  s.maxSessions ≤ s.sessions.entries.length ∧ ∀ t r, s.sessions.get? t = some r → now < r.lastSeen

section Place

variable {s : SessionStore} {token csrf : String} {now : ℚ}

theorem oldest_insert_iff (hfresh : s.sessions.get? token = none) :
    (s.insert token csrf now).oldest = some token ↔ ∀ t r, s.sessions.get? t = some r → now < r.lastSeen := by
  have hentries : (s.insert token csrf now).sessions.entries =
      s.sessions.entries ++ [(token, ⟨csrf, now, now, s.idleTtl, s.absoluteTtl⟩)] :=
    OrderedDict.entries_set_of_notMem _ _ hfresh
  rw [SessionStore.oldest, hentries, List.argmin_concat]
  cases hmin : s.sessions.entries.argmin fun e => e.2.lastSeen with
  | none =>
    have hnil : s.sessions.entries = [] := List.argmin_eq_none.mp hmin
    constructor
    · intro _ t r hr
      have hmem := (OrderedDict.get?_eq_some_iff _ _ _).mp hr
      rw [hnil] at hmem
      cases hmem
    · intro _
      rfl
  | some e =>
    have hmem : s.sessions.get? e.1 = some e.2 := (OrderedDict.get?_eq_some_iff _ _ _).mpr (List.argmin_mem hmin)
    dsimp only
    split_ifs with hlt
    · constructor
      · intro _ t r hr
        have hin := (OrderedDict.get?_eq_some_iff _ _ _).mp hr
        have hle : e.2.lastSeen ≤ r.lastSeen :=
          List.le_of_mem_argmin (f := fun e : String × Session => e.2.lastSeen) hin hmin
        exact hlt.trans_le hle
      · intro _
        rfl
    · constructor
      · intro heq
        rw [Option.map_some, Option.some.injEq] at heq
        rw [heq, hfresh] at hmem
        cases hmem
      · intro hall
        exact absurd (hall e.1 e.2 hmem) hlt

theorem place_evicted_iff (hfresh : s.sessions.get? token = none) :
    (s.place token csrf now).2 = some token ↔ Crowded s now := by
  have hlen : (s.insert token csrf now).sessions.entries.length = s.sessions.entries.length + 1 := by
    rw [SessionStore.insert, OrderedDict.entries_set_of_notMem _ _ hfresh, List.length_append]
    rfl
  have hmax : (s.insert token csrf now).maxSessions = s.maxSessions := rfl
  by_cases hfull : ((s.insert token csrf now).sessions.entries.length : ℤ) > (s.insert token csrf now).maxSessions
  · rw [SessionStore.place_full hfull, oldest_insert_iff hfresh, Crowded]
    rw [hlen, hmax] at hfull
    have hle : s.maxSessions ≤ s.sessions.entries.length := by omega
    exact ⟨fun h => ⟨hle, h⟩, fun h => h.2⟩
  · rw [SessionStore.place_room hfull]
    rw [hlen, hmax] at hfull
    constructor
    · intro h
      cases h
    · intro h
      have hle := h.1
      omega

theorem oldest_mem {k : String} (h : s.oldest = some k) : ∃ r, s.sessions.get? k = some r := by
  obtain ⟨e, he, rfl⟩ := Option.map_eq_some_iff.mp h
  exact ⟨e.2, (OrderedDict.get?_eq_some_iff _ _ _).mpr (List.argmin_mem he)⟩

theorem get?_place (t : String) :
    (s.place token csrf now).1.sessions.get? t =
      if (s.place token csrf now).2 = some t then none else (s.insert token csrf now).sessions.get? t := by
  by_cases hfull : ((s.insert token csrf now).sessions.entries.length : ℤ) > (s.insert token csrf now).maxSessions
  · rw [SessionStore.place_full hfull]
    cases hold : (s.insert token csrf now).oldest with
    | none => rfl
    | some k =>
      by_cases hk : k = t
      · subst hk
        rw [if_pos rfl]
        exact OrderedDict.get?_pop_self _ _
      · rw [if_neg (fun h => hk (Option.some.inj h))]
        exact OrderedDict.get?_pop_of_ne _ (Ne.symm hk)
  · rw [SessionStore.place_room hfull]
    rfl

theorem not_crowded (hmax : 1 ≤ s.maxSessions) (hseen : ∀ t r, s.sessions.get? t = some r → r.lastSeen ≤ now) :
    ¬ Crowded s now := by
  rintro ⟨hfull, hlater⟩
  have hpos : 0 < s.sessions.entries.length := by omega
  obtain ⟨e, he⟩ := List.exists_mem_of_length_pos hpos
  have hget := (OrderedDict.get?_eq_some_iff s.sessions e.1 e.2).mpr he
  exact absurd (hlater _ _ hget) (not_lt.mpr (hseen _ _ hget))

theorem place_count (hcount : (s.sessions.entries.length : ℤ) ≤ s.maxSessions)
    (hfresh : s.sessions.get? token = none) :
    ((s.place token csrf now).1.sessions.entries.length : ℤ) ≤ s.maxSessions := by
  have hlen : (s.insert token csrf now).sessions.entries.length = s.sessions.entries.length + 1 := by
    rw [SessionStore.insert, OrderedDict.entries_set_of_notMem _ _ hfresh, List.length_append]
    rfl
  by_cases hfull : ((s.insert token csrf now).sessions.entries.length : ℤ) > (s.insert token csrf now).maxSessions
  · rw [SessionStore.place_full hfull]
    cases hold : (s.insert token csrf now).oldest with
    | none =>
      have hempty : (s.insert token csrf now).sessions.entries = [] :=
        List.argmin_eq_none.mp (Option.map_eq_none_iff.mp hold)
      rw [hempty] at hlen
      exact absurd hlen (by simp)
    | some k =>
      obtain ⟨r, hr⟩ := oldest_mem hold
      have hlt : ((s.insert token csrf now).drop k).sessions.entries.length <
          (s.insert token csrf now).sessions.entries.length := OrderedDict.length_pop_lt _ hr
      have hdrop : (((s.insert token csrf now).drop k).sessions.entries.length : ℤ) ≤ s.maxSessions := by omega
      exact hdrop
  · rw [SessionStore.place_room hfull]
    exact not_lt.mp hfull

end Place

section Steps

variable {idle absolute : ℚ} {s : SessionStore} {log : List SessionEvent} {now : ℚ} {token csrf : String}

theorem Tracks.not_evicted (h : Tracks idle absolute s log now) (hmax : 1 ≤ s.maxSessions)
    (hfresh : s.sessions.get? token = none) : (s.place token csrf now).2 ≠ some token := by
  rw [ne_eq, place_evicted_iff hfresh]
  refine not_crowded hmax fun t r hr => ?_
  have hold := h.agrees t
  rw [hr] at hold
  exact hold.seen

theorem Tracks.place (h : Tracks idle absolute s log now) :
    Tracks idle absolute (s.place token csrf now).1 (log ++ [.created token now (s.place token csrf now).2]) now := by
  have hfields : (s.place token csrf now).1.idleTtl = s.idleTtl ∧
      (s.place token csrf now).1.absoluteTtl = s.absoluteTtl := by
    rw [SessionStore.place]
    cases (s.insert token csrf now).oldest <;> split_ifs <;> exact ⟨rfl, rfl⟩
  refine ⟨hfields.1.trans h.idleTtl, hfields.2.trans h.absoluteTtl, fun t => ?_⟩
  rw [get?_place, followed_snoc, follow]
  by_cases hev : (s.place token csrf now).2 = some t
  · rw [if_pos hev, if_pos hev]
    trivial
  rw [if_neg hev, if_neg hev, SessionStore.insert, OrderedDict.get?_set]
  by_cases ht : t = token
  · rw [if_pos ht, if_pos ht.symm]
    exact ⟨⟨h.idleTtl, h.absoluteTtl⟩, rfl, rfl, le_rfl, List.isChain_singleton _⟩
  · rw [if_neg ht, if_neg (Ne.symm ht)]
    exact h.agrees t

theorem Tracks.drop (h : Tracks idle absolute s log now) :
    Tracks idle absolute (s.drop token) (log ++ [.revoked token]) now := by
  refine ⟨h.idleTtl, h.absoluteTtl, fun t => ?_⟩
  rw [followed_snoc, follow, SessionStore.drop]
  by_cases ht : t = token
  · rw [if_pos ht.symm, ht, OrderedDict.get?_pop_self]
    trivial
  · rw [if_neg (Ne.symm ht), OrderedDict.get?_pop_of_ne _ ht]
    exact h.agrees t

theorem Tracks.drop_expired (h : Tracks idle absolute s log now) {r : Session} (hr : s.sessions.get? token = some r)
    (hexp : r.expired now = true) : Tracks idle absolute (s.drop token) log now := by
  refine ⟨h.idleTtl, h.absoluteTtl, fun t => ?_⟩
  have hold := h.agrees t
  rw [SessionStore.drop]
  by_cases ht : t = token
  · rw [ht, hr] at hold
    rw [ht, OrderedDict.get?_pop_self]
    exact hold.expire hexp
  · rwa [OrderedDict.get?_pop_of_ne _ ht]

theorem Tracks.use (h : Tracks idle absolute s log now) {r : Session} (hr : s.sessions.get? token = some r)
    (hlive : r.expired now = false) :
    Tracks idle absolute { s with sessions := s.sessions.set token { r with lastSeen := now } }
      (log ++ [.used token now]) now := by
  refine ⟨h.idleTtl, h.absoluteTtl, fun t => ?_⟩
  have hold := h.agrees t
  rw [followed_snoc, follow, OrderedDict.get?_set]
  by_cases ht : t = token
  · rw [ht, hr] at hold
    rw [if_pos ht, if_pos ht.symm, ht]
    match hx : followed token log with
    | none =>
      rw [hx] at hold
      exact hold.elim
    | some (c, us) =>
      rw [hx] at hold
      have hgap : now - latestUse c us < idle := by
        rw [← Bool.not_eq_true, hold.expired_iff, Lapsed, not_or] at hlive
        exact not_le.mp hlive.2
      obtain ⟨hfields, hcreated, -, -, hgaps⟩ := hold
      exact ⟨hfields, hcreated, (latestUse_append _ _ _).symm, le_rfl, shortGaps_append.mpr ⟨hgaps, hgap⟩⟩
  · rwa [if_neg ht, if_neg (Ne.symm ht)]

theorem Tracks.validate_iff (h : Tracks idle absolute s log now) :
    (s.validate token now).1 = true ↔ ∃ c us, followed token log = some (c, us) ∧ now - c < absolute ∧
      List.IsChain (ShortGap idle) (c :: us ++ [now]) := by
  have hold := h.agrees token
  have hlapsed (hgone : Agrees idle absolute now none (followed token log)) : ¬ ∃ c us, followed token log = some (c, us) ∧
      now - c < absolute ∧ List.IsChain (ShortGap idle) (c :: us ++ [now]) := by
    rintro ⟨c, us, hx, habs, hgaps⟩
    rw [hx] at hgone
    rcases hgone with hle | hle
    · exact absurd habs (not_lt.mpr hle)
    · exact absurd (shortGaps_append.mp hgaps).2 (not_lt.mpr hle)
  rcases s.validate_cases token now with ⟨hget, hcase⟩ | ⟨r, hget, ⟨hexp, hcase⟩ | ⟨hlive, hcase⟩⟩ <;>
    rw [hget] at hold <;> rw [hcase]
  · exact iff_of_false Bool.false_ne_true (hlapsed hold)
  · exact iff_of_false Bool.false_ne_true (hlapsed (hold.expire hexp))
  · match hx : followed token log with
    | none =>
      rw [hx] at hold
      exact hold.elim
    | some (c, us) =>
      rw [hx] at hold
      rw [← Bool.not_eq_true, hold.expired_iff, Lapsed, not_or, not_le, not_le] at hlive
      exact iff_of_true rfl ⟨c, us, rfl, hlive.1, shortGaps_append.mpr ⟨hold.2.2.2.2, hlive.2⟩⟩

theorem draw_fresh {draws : List String} (h : s.draw draws = some token) : s.sessions.get? token = none := by
  have hnone := List.find?_some h
  simpa using hnone

end Steps

/-- What holds between the calls: the table agrees with the history and keeps within its bound. -/
structure SessionRun.Sound (idle absolute : ℚ) (max : ℤ) (w : SessionRun) (now : ℚ) : Prop where
  tracks : Tracks idle absolute w.store w.log now
  bound : w.store.maxSessions = max
  count : (w.store.sessions.entries.length : ℤ) ≤ max

section Runs

variable {idle absolute : ℚ} {max : ℤ} {w : SessionRun} {now : ℚ} (s : SessionStore)

theorem prune_count (now : ℚ) :
    ((s.prune now).sessions.entries.length : ℤ) ≤ s.sessions.entries.length :=
  Int.ofNat_le.mpr (List.length_filter_le _ _)

theorem drop_count (token : String) :
    ((s.drop token).sessions.entries.length : ℤ) ≤ s.sessions.entries.length :=
  Int.ofNat_le.mpr (List.length_filter_le _ _)

theorem place_maxSessions (token csrf : String) (now : ℚ) :
    (s.place token csrf now).1.maxSessions = s.maxSessions := by
  rw [SessionStore.place]
  cases (s.insert token csrf now).oldest <;> split_ifs <;> rfl

theorem SessionRun.Sound.call (h : w.Sound idle absolute max now) {c : SessionCall}
    (hc : ∀ t, c.time = some t → t = now) : (w.call c).Sound idle absolute max now := by
  cases c with
  | create t draws csrf =>
    obtain rfl : t = now := hc t rfl
    have hpruned := h.tracks.prune
    have hcount : ((w.store.prune t).sessions.entries.length : ℤ) ≤ (w.store.prune t).maxSessions :=
      (prune_count w.store t).trans (h.count.trans h.bound.ge)
    rw [SessionRun.call]
    cases hdraw : (w.store.prune t).draw draws with
    | none => exact ⟨hpruned, h.bound, hcount.trans h.bound.le⟩
    | some token =>
      have hfresh := draw_fresh hdraw
      exact ⟨hpruned.place, (place_maxSessions _ _ _ _).trans h.bound,
        (place_count hcount hfresh).trans h.bound.le⟩
  | validate t token =>
    obtain rfl : t = now := hc t rfl
    rw [SessionRun.call]
    rcases w.store.validate_cases token t with ⟨hget, hcase⟩ | ⟨r, hget, ⟨hexp, hcase⟩ | ⟨hlive, hcase⟩⟩ <;> rw [hcase]
    · exact h
    · exact ⟨h.tracks.drop_expired hget hexp, h.bound, (drop_count _ _).trans h.count⟩
    · have hlen := OrderedDict.length_set_of_mem w.store.sessions { r with lastSeen := t } hget
      exact ⟨h.tracks.use hget hlive, h.bound, hlen ▸ h.count⟩
  | revoke token => exact ⟨h.tracks.drop, h.bound, (drop_count _ _).trans h.count⟩

theorem after_sound (hmax : 1 ≤ max) {calls : List SessionCall} (h : ClockedRuns.Clocked SessionCall.time calls now) :
    (SessionRun.after ⟨⟨idle, absolute, max, .empty⟩, []⟩ calls).Sound idle absolute max now := by
  apply ClockedRuns.inv_of_clocked (fun now => ?_) (fun w now clock hle hw => ?_) (fun w c now hc hw => hw.call hc) h
  · exact ⟨⟨rfl, rfl, fun _ => trivial⟩, rfl, (Int.zero_le_ofNat 1).trans hmax⟩
  · exact ⟨⟨hw.tracks.idleTtl, hw.tracks.absoluteTtl, fun t => (hw.tracks.agrees t).later hle⟩, hw.bound, hw.count⟩

end Runs

/-- In every run of the table on a clock that does not go back: `validate` succeeds exactly for a token
that was created, was neither revoked nor evicted since, is younger than the absolute lifetime, and from its
creation over its uses up to now never rested for the idle lifetime; the table keeps within its bound; and no
creation evicts the session it creates. -/
theorem session_lifetimes (idle absolute : ℚ) (max : ℤ) (hmax : 1 ≤ max) (calls : List SessionCall)
    (hclock : (calls.filterMap SessionCall.time).Pairwise (· ≤ ·)) :
    let start : SessionRun := ⟨⟨idle, absolute, max, .empty⟩, []⟩
    (∀ before now token rest, calls = before ++ .validate now token :: rest →
      (((start.after before).store.validate token now).1 = true ↔
        ∃ past c evicted later, (start.after before).log = past ++ .created token c evicted :: later ∧
          evicted ≠ some token ∧ (∀ e ∈ later, ¬ e.Ends token) ∧ now - c < absolute ∧
          List.IsChain (ShortGap idle) (c :: usesOf token later ++ [now]))) ∧
      (∀ before rest, calls = before ++ rest → ((start.after before).store.sessions.entries.length : ℤ) ≤ max) ∧
      ∀ before now draws csrf rest token, calls = before ++ .create now draws csrf :: rest →
        ((start.after before).store.prune now).draw draws = some token →
        (((start.after before).store.prune now).place token csrf now).2 ≠ some token ∧
          ((start.after (before ++ [.create now draws csrf])).store.sessions.get? token).isSome = true := by
  intro start
  have hsound {before rest : List SessionCall} {c : SessionCall} {now : ℚ} (heq : calls = before ++ c :: rest)
      (hc : c.time = some now) : (start.after before).Sound idle absolute max now := by
    rw [heq] at hclock
    exact after_sound hmax (ClockedRuns.clocked_of_cons hclock hc)
  refine ⟨fun before now token rest heq => ?_, fun before rest heq => ?_, fun before now draws csrf rest token heq hdraw => ?_⟩
  · rw [(hsound heq rfl).tracks.validate_iff]
    constructor
    · rintro ⟨c, us, hx, habs, hgaps⟩
      obtain ⟨past, evicted, later, hlog, hev, hlater, rfl⟩ := followed_eq_some_iff.mp hx
      exact ⟨past, c, evicted, later, hlog, hev, hlater, habs, hgaps⟩
    · rintro ⟨past, c, evicted, later, hlog, hev, hlater, habs, hgaps⟩
      exact ⟨c, _, followed_eq_some_iff.mpr ⟨past, evicted, later, hlog, hev, hlater, rfl⟩, habs, hgaps⟩
  · rw [heq] at hclock
    obtain ⟨now, hnow⟩ := ClockedRuns.exists_clocked hclock
    exact (after_sound hmax hnow).count
  · have hstate := hsound heq rfl
    have hfresh := draw_fresh hdraw
    have hpruned : 1 ≤ ((start.after before).store.prune now).maxSessions := hmax.trans hstate.bound.ge
    have hne : (((start.after before).store.prune now).place token csrf now).2 ≠ some token :=
      hstate.tracks.prune.not_evicted hpruned hfresh
    refine ⟨hne, ?_⟩
    rw [SessionRun.after_append, SessionRun.call, hdraw, get?_place, if_neg hne]
    exact Option.isSome_iff_exists.mpr ⟨_, OrderedDict.get?_set_self _ _ _⟩

def twoSessions : List SessionCall :=
  [.create 0 ["a"] "x", .create 1 ["a", "b"] "y", .validate 9 "a", .validate 15 "b", .validate 15 "a"]

theorem twoSessions_lifetimes :
    (1 : ℤ) ≤ 2 ∧ (twoSessions.filterMap SessionCall.time).Pairwise (· ≤ ·) ∧
      ((SessionRun.after ⟨⟨10, 100, 2, .empty⟩, []⟩ (twoSessions.take 4)).store.validate "a" 15).1 = true ∧
      ((SessionRun.after ⟨⟨10, 100, 2, .empty⟩, []⟩ twoSessions).store.sessions.entries.length : ℤ) ≤ 2 := by
  have hclock : (twoSessions.filterMap SessionCall.time).Pairwise (· ≤ ·) := by
    simp [twoSessions, SessionCall.time]
    norm_num
  have hrun := session_lifetimes 10 100 2 (by decide) twoSessions hclock
  refine ⟨by decide, hclock, ?_, hrun.2.1 twoSessions [] (List.append_nil _).symm⟩
  apply (hrun.1 (twoSessions.take 4) 15 "a" [] rfl).mpr
  refine ⟨[], 0, none, [.created "b" 1 none, .used "a" 9], by decide +kernel, nofun, ?_, ?_, ?_⟩
  · simp [SessionEvent.Ends]
  · norm_num
  · have huses : usesOf "a" [.created "b" 1 none, .used "a" 9] = [9] := rfl
    rw [huses]
    norm_num [ShortGap]

end PiBuddyCam.Admin
