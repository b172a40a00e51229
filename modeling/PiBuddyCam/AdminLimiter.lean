import PiBuddyCam.AdminAuth
import PiBuddyCam.ClockedRuns
import Mathlib.Tactic.Linarith
import Mathlib.Tactic.NormNum

/-! The login rate limiter over whole runs: a lockout outlasts any flood of other keys, and every
lockout is as long as the first. -/
namespace PiBuddyCam.Admin

open ClockedRuns

/-- The first elements of a sorted list miss an upward closed property, if enough elements of the list do. -/
theorem take_misses {α : Type} {r : α → α → Prop} {l : List α} (hl : l.Pairwise r) {p : α → Bool}
    (hp : ∀ a b, r a b → p a = true → p b = true) {n : ℕ} (hn : n ≤ l.countP fun a => !p a) :
    ∀ x ∈ l.take n, p x = false := by
  intro x hx
  by_contra hpx
  rw [Bool.not_eq_false] at hpx
  rw [← List.take_append_drop n l, List.pairwise_append] at hl
  -- everything behind `x` has the property, so that what misses it is among the first `n`
  have hback : (l.drop n).countP (fun a => !p a) = 0 := by
    apply List.countP_eq_zero.mpr
    intro y hy
    rw [hp x y (hl.2.2 x hx y hy) hpx]
    exact Bool.false_ne_true
  have hfront : (l.take n).countP (fun a => !p a) < (l.take n).length := by
    rw [List.countP_eq_length_filter]
    exact List.length_filter_lt_length_iff_exists.mpr ⟨x, hx, by simp [hpx]⟩
  have hsplit : l.countP (fun a => !p a) = (l.take n).countP (fun a => !p a) + (l.drop n).countP (fun a => !p a) := by
    rw [← List.countP_append, List.take_append_drop]
  have hlen : (l.take n).length ≤ n := List.length_take_le n l
  omega

namespace LoginRateLimiter

def backoff (l : LoginRateLimiter) (k : ℕ) : ℚ := min (l.lockout * 2^k) l.maxLockout

/-- The entry of the key with one more failure, before the threshold is looked at. -/
def failing (l : LoginRateLimiter) (key : String) (now : ℚ) : LimiterEntry :=
  let e := (l.entries.get? key).getD {}
  { e with failures := l.recent now (e.failures ++ [now]) }

def locks (l : LoginRateLimiter) (key : String) (now : ℚ) : Bool :=
  ((l.failing key now).failures.length : ℤ) ≥ l.maxAttempts

def failed (l : LoginRateLimiter) (key : String) (now : ℚ) : LimiterEntry :=
  let e := l.failing key now
  if l.locks key now then { e with streak := e.streak+1, lockedUntil := now + l.backoff e.streak } else e

theorem recordFailure_eq (l : LoginRateLimiter) (key : String) (now : ℚ) :
    l.recordFailure key now = LoginRateLimiter.prune { l with entries := l.entries.set key (l.failed key now) } now := by
  simp only [recordFailure, failed, locks, decide_eq_true_eq]
  rfl

/-- `record_failure` with its exception: from `2 ** 1024` on the power does not fit a float. The entry
is changed by then, and nothing is pruned. `false` is the exception. -/
def tryRecordFailure (l : LoginRateLimiter) (key : String) (now : ℚ) : Bool × LoginRateLimiter :=
  let e := l.failing key now
  if l.locks key now ∧ e.streak ≥ 1024 then
    (false, { l with entries := l.entries.set key { e with streak := e.streak+1 } })
  else (true, l.recordFailure key now)

/-- The entries that are not stale, as `_prune` leaves them before it looks at their number. -/
def kept (l : LoginRateLimiter) (now : ℚ) : OrderedDict String LimiterEntry :=
  (l.entries.mapValues fun e => { e with failures := l.recent now e.failures }).filter
    fun e => !(e.2.failures.isEmpty && e.2.lockedUntil ≤ now)

theorem prune_eq (l : LoginRateLimiter) (now : ℚ) :
    l.prune now = { l with entries := (l.kept now).filter fun e => !(l.surplus (l.kept now)).contains e.1 } := rfl

def lockedAt (entries : OrderedDict String LimiterEntry) (now : ℚ) : ℕ :=
  entries.entries.countP fun e => now < e.2.lockedUntil

section Prune

variable {l : LoginRateLimiter} {key : String} {e : LimiterEntry} {now : ℚ}

theorem get?_kept : (l.kept now).get? key = some e ↔
    (∃ e₀, l.entries.get? key = some e₀ ∧ { e₀ with failures := l.recent now e₀.failures } = e) ∧
      ¬ (e.failures = [] ∧ e.lockedUntil ≤ now) := by
  rw [kept, OrderedDict.get?_filter, OrderedDict.get?_mapValues]
  simp [or_iff_not_imp_left]

theorem get?_prune (h : (l.prune now).entries.get? key = some e) : (l.kept now).get? key = some e := by
  rw [prune_eq] at h
  exact ((OrderedDict.get?_filter _ _ _ _).mp h).1

def ranked (l : LoginRateLimiter) (now : ℚ) : List (String × LimiterEntry) :=
  (l.kept now).entries.insertionSort fun a b => activity a.2 ≤ activity b.2

theorem ranked_pairwise : (l.ranked now).Pairwise fun a b => activity a.2 ≤ activity b.2 := by
  have : Std.Total fun a b : String × LimiterEntry => activity a.2 ≤ activity b.2 := ⟨fun a b => le_total _ _⟩
  have : IsTrans (String × LimiterEntry) fun a b => activity a.2 ≤ activity b.2 := ⟨fun _ _ _ => le_trans⟩
  exact List.pairwise_insertionSort _ _

theorem ranked_perm : (l.ranked now).Perm (l.kept now).entries := List.perm_insertionSort _ _

theorem prune_count (l : LoginRateLimiter) (now : ℚ) : (l.prune now).entries.entries.length ≤ l.maxKeys.toNat := by
  set n := (((l.kept now).entries.length : ℤ) - l.maxKeys).toNat with hn
  have hgone : ((l.ranked now).take n).countP (fun e => !(l.surplus (l.kept now)).contains e.1) = 0 := by
    apply List.countP_eq_zero.mpr
    intro x hx
    have hmem : x.1 ∈ l.surplus (l.kept now) := List.mem_map_of_mem hx
    simp [hmem]
  calc
    (l.prune now).entries.entries.length
        = (l.kept now).entries.countP (fun e => !(l.surplus (l.kept now)).contains e.1) :=
      (List.countP_eq_length_filter).symm
    _ = (l.ranked now).countP (fun e => !(l.surplus (l.kept now)).contains e.1) := (ranked_perm.countP_eq _).symm
    _ = ((l.ranked now).drop n).countP (fun e => !(l.surplus (l.kept now)).contains e.1) := by
      conv_lhs => rw [← List.take_append_drop n (l.ranked now), List.countP_append, hgone, Nat.zero_add]
    _ ≤ ((l.ranked now).drop n).length := List.countP_le_length
    _ ≤ l.maxKeys.toNat := by
      rw [List.length_drop, ranked_perm.length_eq]
      omega

theorem activity_gt_iff (hfail : ∀ f ∈ e.failures, f ≤ now) (hkept : ¬ (e.failures = [] ∧ e.lockedUntil ≤ now)) :
    now < activity e ↔ now < e.lockedUntil := by
  constructor
  · intro h
    by_contra hlock
    rw [not_lt] at hlock
    have hne : e.failures ≠ [] := fun hnil => hkept ⟨hnil, hlock⟩
    have hlast : e.failures.getLast?.getD 0 ≤ now := by
      rw [List.getLast?_eq_some_getLast hne]
      exact hfail _ (List.getLast_mem hne)
    exact absurd h (not_lt.mpr (max_le hlast hlock))
  · intro h
    exact h.trans_le (le_max_right _ _)

theorem lockedAt_kept_le : lockedAt (l.kept now) now ≤ lockedAt l.entries now := by
  calc
    lockedAt (l.kept now) now
        ≤ lockedAt (l.entries.mapValues fun e => { e with failures := l.recent now e.failures }) now :=
      List.filter_sublist.countP_le
    _ = lockedAt l.entries now := by
      rw [lockedAt, OrderedDict.mapValues, List.countP_map]
      rfl

theorem prune_locked (hfail : ∀ k e, l.entries.get? k = some e → ∀ f ∈ e.failures, f ≤ now)
    (hcrowd : (lockedAt l.entries now : ℤ) ≤ l.maxKeys) (hget : l.entries.get? key = some e)
    (hlock : now < e.lockedUntil) :
    (l.prune now).entries.get? key = some { e with failures := l.recent now e.failures } := by
  set e' : LimiterEntry := { e with failures := l.recent now e.failures } with he'
  have hkept : (l.kept now).get? key = some e' := get?_kept.mpr ⟨⟨e, hget, rfl⟩, fun h => absurd hlock (not_lt.mpr h.2)⟩
  have hactive (x : String × LimiterEntry) (hx : x ∈ (l.kept now).entries) :
      now < activity x.2 ↔ now < x.2.lockedUntil := by
    obtain ⟨⟨e₀, hget₀, heq⟩, hstale⟩ := get?_kept.mp ((OrderedDict.get?_eq_some_iff _ x.1 x.2).mpr hx)
    apply activity_gt_iff _ hstale
    intro f hf
    rw [← heq] at hf
    exact hfail x.1 e₀ hget₀ f (List.mem_of_mem_filter hf)
  -- at least as many unlocked keys as have to go
  have hroom : (((l.kept now).entries.length : ℤ) - l.maxKeys).toNat ≤
      (l.ranked now).countP fun x => !decide (now < activity x.2) := by
    have hlocked : (l.kept now).entries.countP (fun x => decide (now < activity x.2)) = lockedAt (l.kept now) now := by
      apply List.countP_congr
      intro x hx
      simpa using hactive x hx
    have hsum : (l.kept now).entries.length = (l.kept now).entries.countP (fun x => decide (now < activity x.2)) +
        (l.kept now).entries.countP (fun x => !decide (now < activity x.2)) := by
      rw [List.countP_eq_length_filter, List.countP_eq_length_filter]
      exact List.length_eq_length_filter_add _
    have hle := @lockedAt_kept_le l now
    rw [ranked_perm.countP_eq]
    omega
  have hstay : key ∉ l.surplus (l.kept now) := by
    intro hmem
    obtain ⟨x, hx, hkey⟩ := List.mem_map.mp hmem
    have hlow := take_misses ranked_pairwise (p := fun x => decide (now < activity x.2))
      (fun a b hab ha => decide_eq_true ((of_decide_eq_true ha).trans_le hab)) hroom x hx
    have hxkept : x ∈ (l.kept now).entries := ranked_perm.mem_iff.mp (List.mem_of_mem_take hx)
    have hsame : x.2 = e' := by
      have hxget := (OrderedDict.get?_eq_some_iff _ x.1 x.2).mpr hxkept
      rw [hkey, hkept] at hxget
      exact (Option.some.inj hxget).symm
    have hhigh : now < activity x.2 := (hactive x hxkept).mpr (hsame ▸ hlock)
    exact absurd hhigh (of_decide_eq_false hlow)
  rw [prune_eq]
  exact (OrderedDict.get?_filter _ _ _ _).mpr ⟨hkept, by simp [hstay]⟩

end Prune

end LoginRateLimiter

inductive LimiterCall where
  | check (key : String) (now : ℚ)
  | failure (key : String) (now : ℚ)
  | success (key : String)

def LimiterCall.time : LimiterCall → Option ℚ
  | .check _ now | .failure _ now => some now
  | .success _ => none

namespace LoginRateLimiter

def step (l : LoginRateLimiter) : LimiterCall → LoginRateLimiter
  | .check key now => (l.check key now).2
  | .failure key now => (l.tryRecordFailure key now).2
  | .success key => l.recordSuccess key

def after (l : LoginRateLimiter) (calls : List LimiterCall) : LoginRateLimiter := calls.foldl step l

theorem after_append (l : LoginRateLimiter) (calls : List LimiterCall) (c : LimiterCall) :
    l.after (calls ++ [c]) = (l.after calls).step c := by
  rw [after, List.foldl_append]
  rfl

/-- The keys that are locked at once when the call prunes: those in the table, after the failure that is
being recorded. -/
def lockedAtOnce (l : LoginRateLimiter) : LimiterCall → ℕ
  | .check _ now => lockedAt l.entries now
  | .failure key now => lockedAt (l.entries.set key (l.failed key now)) now
  | .success _ => 0

def LockedUntil (l : LoginRateLimiter) (key : String) (T : ℚ) : Prop :=
  ∃ e, l.entries.get? key = some e ∧ 0 < e.streak ∧ e.lockedUntil = T

def LockedPast (l : LoginRateLimiter) (key : String) (T : ℚ) : Prop :=
  ∃ e, l.entries.get? key = some e ∧ 0 < e.streak ∧ T ≤ e.lockedUntil

/-- An entry on a clock that has come to `now`: its failures are past, and its lock is a backoff
from a past time. -/
structure Timely (backoff : ℕ → ℚ) (now : ℚ) (e : LimiterEntry) : Prop where
  failures : ∀ f ∈ e.failures, f ≤ now
  lock : 0 < e.streak → ∃ start k, start ≤ now ∧ k < e.streak ∧ e.lockedUntil = start + backoff k

structure Tidy (l : LoginRateLimiter) (now : ℚ) : Prop where
  timely : ∀ key e, l.entries.get? key = some e → Timely l.backoff now e
  count : l.entries.entries.length ≤ l.maxKeys.toNat

section Steps

variable {l : LoginRateLimiter} {key : String} {e : LimiterEntry} {now clock : ℚ}

theorem Timely.later {backoff : ℕ → ℚ} (h : Timely backoff now e) (hle : now ≤ clock) : Timely backoff clock e := by
  refine ⟨fun f hf => (h.failures f hf).trans hle, fun hs => ?_⟩
  obtain ⟨start, k, hstart, hk, hlock⟩ := h.lock hs
  exact ⟨start, k, hstart.trans hle, hk, hlock⟩

theorem Tidy.later (h : l.Tidy now) (hle : now ≤ clock) : l.Tidy clock :=
  ⟨fun key e he => (h.timely key e he).later hle, h.count⟩

theorem timely_failing (h : l.Tidy now) (key : String) : Timely l.backoff now (l.failing key now) := by
  have hall (e : LimiterEntry) (he : Timely l.backoff now e) :
      Timely l.backoff now { e with failures := l.recent now (e.failures ++ [now]) } := by
    refine ⟨fun f hf => ?_, he.lock⟩
    rcases List.mem_append.mp (List.mem_of_mem_filter hf) with hold | hnew
    · exact he.failures f hold
    · exact (List.mem_singleton.mp hnew).le
  rw [failing]
  cases hget : l.entries.get? key with
  | none => exact hall {} ⟨nofun, nofun⟩
  | some e => exact hall e (h.timely key e hget)

theorem timely_failed (h : l.Tidy now) (key : String) : Timely l.backoff now (l.failed key now) := by
  have hfailing := timely_failing h key
  rw [failed]
  split_ifs
  · exact ⟨hfailing.failures, fun _ => ⟨now, _, le_rfl, Nat.lt_succ_self _, rfl⟩⟩
  · exact hfailing

theorem timely_prune (h : ∀ key e, l.entries.get? key = some e → Timely l.backoff now e) :
    ∀ key e, (l.prune now).entries.get? key = some e → Timely l.backoff now e := by
  intro key e he
  obtain ⟨⟨e₀, hget, rfl⟩, -⟩ := get?_kept.mp (get?_prune he)
  have h₀ := h key e₀ hget
  exact ⟨fun f hf => h₀.failures f (List.mem_of_mem_filter hf), h₀.lock⟩

theorem timely_set (h : l.Tidy now) (he : Timely l.backoff now e) :
    ∀ k e', (l.entries.set key e).get? k = some e' → Timely l.backoff now e' := by
  intro k e' hget
  rw [OrderedDict.get?_set] at hget
  split_ifs at hget with hk
  · exact Option.some.inj hget ▸ he
  · exact h.timely k e' hget

theorem check_snd (l : LoginRateLimiter) (key : String) (now : ℚ) : (l.check key now).2 = l.prune now := by
  rw [check]
  cases (l.prune now).entries.get? key with
  | none => rfl
  | some e =>
    dsimp only
    split_ifs <;> rfl

theorem tracked_of_streak (h : (l.failing key now).streak ≥ 1024) : ∃ e, l.entries.get? key = some e := by
  cases hget : l.entries.get? key with
  | none => simp [failing, hget] at h
  | some e => exact ⟨e, rfl⟩

theorem tryRecordFailure_overflow (h : l.locks key now = true ∧ (l.failing key now).streak ≥ 1024) :
    (l.tryRecordFailure key now).2 =
      { l with entries := l.entries.set key { l.failing key now with streak := (l.failing key now).streak+1 } } := by
  rw [tryRecordFailure]
  exact congrArg Prod.snd (if_pos h)

theorem tryRecordFailure_recorded (h : ¬ (l.locks key now = true ∧ (l.failing key now).streak ≥ 1024)) :
    (l.tryRecordFailure key now).2 =
      LoginRateLimiter.prune { l with entries := l.entries.set key (l.failed key now) } now := by
  rw [← recordFailure_eq, tryRecordFailure]
  exact congrArg Prod.snd (if_neg h)

theorem Tidy.step (h : l.Tidy now) {c : LimiterCall} (hc : ∀ t, c.time = some t → t = now) : (l.step c).Tidy now := by
  cases c with
  | check key t =>
    obtain rfl : t = now := hc t rfl
    rw [LoginRateLimiter.step, check_snd]
    exact ⟨timely_prune h.timely, prune_count l t⟩
  | failure key t =>
    obtain rfl : t = now := hc t rfl
    rw [LoginRateLimiter.step]
    by_cases hover : l.locks key t = true ∧ (l.failing key t).streak ≥ 1024
    · rw [tryRecordFailure_overflow hover]
      have hfailing := timely_failing h key
      obtain ⟨e, he⟩ := tracked_of_streak hover.2
      constructor
      · apply timely_set h
        refine ⟨hfailing.failures, fun _ => ?_⟩
        obtain ⟨start, k, hstart, hk, hlock⟩ := hfailing.lock (Nat.lt_of_lt_of_le (by decide) hover.2)
        exact ⟨start, k, hstart, Nat.lt_succ_of_lt hk, hlock⟩
      · exact (OrderedDict.length_set_of_mem _ _ he).le.trans h.count
    · rw [tryRecordFailure_recorded hover]
      exact ⟨timely_prune (timely_set h (timely_failed h key)), prune_count _ t⟩
  | success key =>
    constructor
    · intro k e he
      exact h.timely k e ((OrderedDict.get?_pop_eq_some_iff _ _ _ _).mp he).1
    · exact (List.length_filter_le _ _).trans h.count

theorem Timely.lock_le (h : Timely l.backoff now e) (hs : 0 < e.streak) (hlock : now < e.lockedUntil) :
    e.lockedUntil ≤ now + l.backoff e.streak := by
  obtain ⟨start, k, hstart, hk, heq⟩ := h.lock hs
  have hpos : 0 < l.backoff k := by linarith
  have hlockout : 0 < l.lockout := by
    have hprod : 0 < l.lockout * 2^k := hpos.trans_le (min_le_left _ _)
    exact pos_of_mul_pos_left hprod (by positivity)
  have hmono : l.backoff k ≤ l.backoff e.streak := by
    apply min_le_min_right
    have hpow : (2 : ℚ)^k ≤ 2^e.streak := pow_le_pow_right₀ (by norm_num) hk.le
    exact mul_le_mul_of_nonneg_left hpow hlockout.le
  linarith

variable {T : ℚ}

theorem failed_locked (h : l.Tidy now) (hkey : l.LockedPast key T) (hT : now < T) :
    0 < (l.failed key now).streak ∧ T ≤ (l.failed key now).lockedUntil := by
  obtain ⟨e, hget, hs, hle⟩ := hkey
  have hnext := (h.timely key e hget).lock_le hs (hT.trans_le hle)
  have hfailing : l.failing key now = { e with failures := l.recent now (e.failures ++ [now]) } := by
    rw [failing, hget]
    rfl
  rw [failed, hfailing]
  split_ifs
  · exact ⟨Nat.succ_pos _, hle.trans hnext⟩
  · exact ⟨hs, hle⟩

theorem lockedPast_prune (h : ∀ k e, l.entries.get? k = some e → Timely l.backoff now e)
    (hcrowd : (lockedAt l.entries now : ℤ) ≤ l.maxKeys) (hkey : l.LockedPast key T) (hT : now < T) :
    (l.prune now).LockedPast key T := by
  obtain ⟨e, hget, hs, hle⟩ := hkey
  exact ⟨_, prune_locked (fun k e he => (h k e he).failures) hcrowd hget (hT.trans_le hle), hs, hle⟩

/-- One call, other than a success of the key itself, keeps a locked key locked while there is room for
all locked keys. -/
theorem LockedPast.step (h : l.Tidy now) {c : LimiterCall} (hc : ∀ t, c.time = some t → t = now)
    (hcrowd : (l.lockedAtOnce c : ℤ) ≤ l.maxKeys) (hother : c ≠ .success key) (hkey : l.LockedPast key T)
    (hT : now < T) : (l.step c).LockedPast key T := by
  cases c with
  | check k t =>
    obtain rfl : t = now := hc t rfl
    rw [LoginRateLimiter.step, check_snd]
    exact lockedPast_prune h.timely hcrowd hkey hT
  | failure k t =>
    obtain rfl : t = now := hc t rfl
    have hfailed (hk : key = k) := failed_locked h (hk ▸ hkey) hT
    obtain ⟨e, hget, hs, hle⟩ := hkey
    rw [LoginRateLimiter.step]
    by_cases hover : l.locks k t = true ∧ (l.failing k t).streak ≥ 1024
    · rw [tryRecordFailure_overflow hover]
      by_cases hk : key = k
      · subst hk
        have hfailing : (l.failing key t).lockedUntil = e.lockedUntil := by
          rw [failing, hget]
          rfl
        exact ⟨_, OrderedDict.get?_set_self _ _ _, Nat.succ_pos _, hfailing ▸ hle⟩
      · exact ⟨e, (OrderedDict.get?_set_of_ne _ _ hk).trans hget, hs, hle⟩
    · rw [tryRecordFailure_recorded hover]
      apply lockedPast_prune (l := { l with entries := l.entries.set k (l.failed k t) })
        (timely_set h (timely_failed h k)) hcrowd _ hT
      by_cases hk : key = k
      · subst hk
        exact ⟨_, OrderedDict.get?_set_self _ _ _, (hfailed rfl).1, (hfailed rfl).2⟩
      · exact ⟨e, (OrderedDict.get?_set_of_ne _ _ hk).trans hget, hs, hle⟩
  | success k =>
    obtain ⟨e, hget, hs, hle⟩ := hkey
    have hk : key ≠ k := fun heq => hother (by rw [heq])
    exact ⟨e, (OrderedDict.get?_pop_of_ne _ hk).trans hget, hs, hle⟩

theorem LockedPast.check (h : l.Tidy now) (hcrowd : (l.lockedAtOnce (.check key now) : ℤ) ≤ l.maxKeys)
    (hkey : l.LockedPast key T) (hT : now < T) :
    (l.check key now).1.1 = false ∧ T - now ≤ (l.check key now).1.2 := by
  obtain ⟨e, hget, -, hle⟩ := lockedPast_prune h.timely hcrowd hkey hT
  have hlocked : e.lockedUntil > now := hT.trans_le hle
  rw [LoginRateLimiter.check]
  simp only [hget, if_pos hlocked]
  exact ⟨trivial, sub_le_sub_right hle now⟩

theorem step_maxKeys (l : LoginRateLimiter) (c : LimiterCall) : (l.step c).maxKeys = l.maxKeys := by
  cases c with
  | check key t =>
    rw [step, check_snd]
    rfl
  | failure key t =>
    rw [step]
    by_cases hover : l.locks key t = true ∧ (l.failing key t).streak ≥ 1024
    · rw [tryRecordFailure_overflow hover]
    · rw [tryRecordFailure_recorded hover]
      rfl
  | success key => rfl

end Steps

section Runs

variable {l : LoginRateLimiter} {key : String} {now T : ℚ}

theorem after_maxKeys (l : LoginRateLimiter) (calls : List LimiterCall) : (l.after calls).maxKeys = l.maxKeys := by
  induction calls using List.reverseRecOn with
  | nil => rfl
  | append_singleton calls c ih => rw [after_append, step_maxKeys, ih]

theorem after_tidy (hempty : l.entries = .empty) {calls : List LimiterCall} (h : Clocked LimiterCall.time calls now) :
    (l.after calls).Tidy now := by
  apply inv_of_clocked (fun now => ?_) (fun l now clock hle hl => hl.later hle) (fun l c now hc hl => hl.step hc) h
  refine ⟨fun key e he => ?_, ?_⟩
  · rw [hempty] at he
    exact absurd he nofun
  · rw [hempty]
    exact Nat.zero_le _

theorem LockedPast.after (hempty : l.entries = .empty) {before mid : List LimiterCall}
    (hclock : Clocked LimiterCall.time (before ++ mid) now) (hkey : (l.after before).LockedPast key T) (hT : now < T)
    (hmid : ∀ done c todo, mid = done ++ c :: todo → c ≠ .success key ∧
      ((l.after (before ++ done)).lockedAtOnce c : ℤ) ≤ l.maxKeys) :
    (l.after (before ++ mid)).LockedPast key T := by
  induction mid using List.reverseRecOn generalizing now with
  | nil =>
    rw [List.append_nil]
    exact hkey
  | append_singleton mid c ih =>
    rw [← List.append_assoc] at hclock ⊢
    obtain ⟨t, hle, hpast, hc⟩ := hclock.snoc
    have hstill : (l.after (before ++ mid)).LockedPast key T := by
      apply ih hpast (hle.trans_lt hT)
      intro done c' todo heq
      exact hmid done c' (todo ++ [c]) (by rw [heq, List.append_assoc]; rfl)
    obtain ⟨hother, hcrowd⟩ := hmid mid c [] rfl
    rw [after_append]
    exact hstill.step (after_tidy hempty hpast) hc (by rw [after_maxKeys]; exact hcrowd) hother (hle.trans_lt hT)

/-- A lock that a failure of the key among `calls` accounts for. -/
def Due (calls : List LimiterCall) (cap : ℚ) (key : String) (e : LimiterEntry) : Prop :=
  e.lockedUntil = 0 ∨ ∃ t, .failure key t ∈ calls ∧ e.lockedUntil ≤ t + cap

structure AllDue (calls : List LimiterCall) (cap : ℚ) (l : LoginRateLimiter) : Prop where
  most : l.maxLockout = cap
  due : ∀ key e, l.entries.get? key = some e → Due calls cap key e

variable {calls : List LimiterCall} {cap : ℚ}

theorem AllDue.prune (h : AllDue calls cap l) (now : ℚ) : AllDue calls cap (l.prune now) := by
  refine ⟨h.most, fun key e he => ?_⟩
  obtain ⟨⟨e₀, hget, rfl⟩, -⟩ := get?_kept.mp (get?_prune he)
  exact h.due key e₀ hget

theorem AllDue.set (h : AllDue calls cap l) {e : LimiterEntry} (he : Due calls cap key e) :
    AllDue calls cap { l with entries := l.entries.set key e } := by
  refine ⟨h.most, fun k e' hget => ?_⟩
  rw [OrderedDict.get?_set] at hget
  split_ifs at hget with hk
  · cases hget
    rwa [hk]
  · exact h.due k e' hget

theorem AllDue.step (h : AllDue calls cap l) {c : LimiterCall} (hc : c ∈ calls) :
    AllDue calls cap (l.step c) := by
  cases c with
  | check key now =>
    rw [LoginRateLimiter.step, check_snd]
    exact h.prune now
  | failure key now =>
    have hfailing : Due calls cap key (l.failing key now) := by
      unfold failing
      cases hget : l.entries.get? key with
      | none => exact .inl rfl
      | some e => exact h.due key e hget
    rw [LoginRateLimiter.step]
    by_cases hover : l.locks key now = true ∧ (l.failing key now).streak ≥ 1024
    · rw [tryRecordFailure_overflow hover]
      exact h.set hfailing
    · rw [tryRecordFailure_recorded hover]
      refine (h.set ?_).prune now
      rw [failed]
      split_ifs
      · exact .inr ⟨now, hc, add_le_add_right (h.most ▸ min_le_right _ _) now⟩
      · exact hfailing
  | success k =>
    refine ⟨h.most, fun key e hget => h.due key e ?_⟩
    exact ((OrderedDict.get?_pop_eq_some_iff _ _ _ _).mp hget).1

end Runs

end LoginRateLimiter

open LoginRateLimiter in
/-- In every run of the limiter on a clock that does not go back: a key that a lockout holds until `T` is
refused by every check before `T`, as long as it has no success and the keys that are locked at once have room
in the table; and the table never has more keys than it may. -/
theorem lockout_outlasts_flood (maxAttempts : ℤ) (window lockout maxLockout : ℚ) (maxKeys : ℤ) (calls : List LimiterCall)
    (hclock : (calls.filterMap LimiterCall.time).Pairwise (· ≤ ·)) :
    let start : LoginRateLimiter := ⟨maxAttempts, window, lockout, maxLockout, maxKeys, .empty⟩
    (∀ before mid key now rest T, calls = before ++ (mid ++ .check key now :: rest) →
      (start.after before).LockedUntil key T → now < T →
      (∀ done c todo, mid ++ [.check key now] = done ++ c :: todo → c ≠ .success key ∧
        ((start.after (before ++ done)).lockedAtOnce c : ℤ) ≤ maxKeys) →
      ((start.after (before ++ mid)).check key now).1.1 = false ∧
        T - now ≤ ((start.after (before ++ mid)).check key now).1.2) ∧
      ∀ before rest, calls = before ++ rest → (start.after before).entries.entries.length ≤ maxKeys.toNat := by
  intro start
  constructor
  · intro before mid key now rest T heq hlocked hT hmid
    have hclocked : Clocked LimiterCall.time (before ++ mid) now := by
      rw [heq, ← List.append_assoc] at hclock
      exact clocked_of_cons hclock rfl
    obtain ⟨e, hget, hs, hlock⟩ := hlocked
    have hkey : (start.after before).LockedPast key T := ⟨e, hget, hs, hlock.ge⟩
    have hstill : (start.after (before ++ mid)).LockedPast key T := by
      apply LockedPast.after rfl hclocked hkey hT
      intro done c todo hsplit
      exact hmid done c (todo ++ [.check key now]) (by rw [hsplit, List.append_assoc]; rfl)
    have hcrowd := (hmid mid (.check key now) [] rfl).2
    exact hstill.check (after_tidy rfl hclocked) (by rw [after_maxKeys]; exact hcrowd) hT
  · intro before rest heq
    rw [heq] at hclock
    obtain ⟨now, hnow⟩ := exists_clocked hclock
    have hmax : (start.after before).maxKeys = maxKeys := after_maxKeys start before
    exact hmax ▸ (after_tidy rfl hnow).count

/-- Two failures lock `a`; the flood is `b`, for which the table has no room. -/
def floodedCalls : List LimiterCall :=
  [.failure "a" 0, .failure "a" 0, .failure "b" 1, .check "a" 10]

open LoginRateLimiter in
theorem floodedCalls_refused :
    (floodedCalls.filterMap LimiterCall.time).Pairwise (· ≤ ·) ∧
      ((LoginRateLimiter.after ⟨2, 300, 900, 3600, 1, .empty⟩ (floodedCalls.take 3)).check "a" 10).1.1 = false := by
  have hclock : (floodedCalls.filterMap LimiterCall.time).Pairwise (· ≤ ·) := by
    simp [floodedCalls, LimiterCall.time]
  have hrun := lockout_outlasts_flood 2 300 900 3600 1 floodedCalls hclock
  refine ⟨hclock, (hrun.1 (floodedCalls.take 2) [.failure "b" 1] "a" 10 [] 900 rfl ?_ (by norm_num) ?_).1⟩
  · exact ⟨⟨[0, 0], 900, 1⟩, by decide +kernel, by decide, rfl⟩
  · rintro (_ | ⟨x, _ | ⟨y, done⟩⟩) c todo heq
    · obtain ⟨rfl, -⟩ := List.cons.inj heq
      exact ⟨nofun, by decide +kernel⟩
    · obtain ⟨rfl, htail⟩ := List.cons.inj heq
      obtain ⟨rfl, -⟩ := List.cons.inj htail
      exact ⟨nofun, by decide +kernel⟩
    · exact absurd (congrArg List.length heq) (by simp)

end PiBuddyCam.Admin
