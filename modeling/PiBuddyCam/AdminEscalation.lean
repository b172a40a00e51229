import PiBuddyCam.AdminLimiter

/-! Lockouts of callers that ask before each attempt. An entry whose lockout has run out has no recent
failure left, so that it is pruned, and its streak with it, by the very check that lets the key in again. -/
namespace PiBuddyCam.Admin

open LoginRateLimiter

/-- A failed login: the check at `asked`, and the failure at `failed` if the check allowed it. -/
structure Attempt where
  key : String
  asked : ℚ
  failed : ℚ

structure Lockout where
  key : String
  begun : ℚ
  ends : ℚ
  deriving DecidableEq

structure Throttle where
  limiter : LoginRateLimiter := {}
  lockouts : List Lockout := []

namespace Throttle

def attempt (t : Throttle) (a : Attempt) : Throttle :=
  let checked := (t.limiter.check a.key a.asked).2
  if (t.limiter.check a.key a.asked).1.1 then
    { limiter := (checked.tryRecordFailure a.key a.failed).2
      lockouts := t.lockouts ++ if checked.locks a.key a.failed then
        [⟨a.key, a.failed, (checked.failed a.key a.failed).lockedUntil⟩] else [] }
  else { t with limiter := checked }

def after (t : Throttle) (attempts : List Attempt) : Throttle := attempts.foldl attempt t

def lockoutsOf (t : Throttle) (key : String) : List Lockout := t.lockouts.filter fun x => x.key = key

end Throttle

/-- No entry has been locked out twice, and a lockout began after the last failure. -/
structure FirstLock (lockout now : ℚ) (e : LimiterEntry) : Prop where
  failures : ∀ f ∈ e.failures, f ≤ now
  lock : e.streak = 0 ∨ e.streak = 1 ∧ ∀ f ∈ e.failures, f + lockout ≤ e.lockedUntil

def FirstLocks (l : LoginRateLimiter) (now : ℚ) : Prop :=
  ∀ key e, l.entries.get? key = some e → FirstLock l.lockout now e

section FirstLocks

variable {l : LoginRateLimiter} {key : String} {e : LimiterEntry} {now clock : ℚ}

theorem FirstLock.sublist {lockout : ℚ} {failures : List ℚ} (h : FirstLock lockout now e)
    (hsub : ∀ f ∈ failures, f ∈ e.failures) : FirstLock lockout now { e with failures := failures } :=
  ⟨fun f hf => h.failures f (hsub f hf), h.lock.imp_right fun hl => ⟨hl.1, fun f hf => hl.2 f (hsub f hf)⟩⟩

theorem FirstLocks.later (h : FirstLocks l now) (hle : now ≤ clock) : FirstLocks l clock := by
  intro key e he
  exact ⟨fun f hf => ((h key e he).failures f hf).trans hle, (h key e he).lock⟩

theorem FirstLocks.prune (h : FirstLocks l now) (t : ℚ) : FirstLocks (l.prune t) now := by
  intro key e he
  obtain ⟨⟨e₀, hget, rfl⟩, -⟩ := get?_kept.mp (get?_prune he)
  exact (h key e₀ hget).sublist fun f hf => List.mem_of_mem_filter hf

theorem FirstLocks.set (h : FirstLocks l now) (he : FirstLock l.lockout now e) :
    FirstLocks { l with entries := l.entries.set key e } now := by
  intro k e' hget
  rw [OrderedDict.get?_set] at hget
  split_ifs at hget with hk
  · rw [← Option.some.inj hget]
    exact he
  · exact h k e' hget

theorem streak_of_allowed (h : FirstLocks l now) (hwindow : l.window ≤ l.lockout)
    (hallowed : (l.check key now).1.1 = true) (hget : (l.prune now).entries.get? key = some e) : e.streak = 0 := by
  have hopen : e.lockedUntil ≤ now := by
    by_contra hlocked
    rw [not_le] at hlocked
    rw [check] at hallowed
    simp only [hget, if_pos hlocked] at hallowed
    exact absurd hallowed Bool.false_ne_true
  rcases (h.prune now key e hget).lock with hzero | ⟨-, hbefore⟩
  · exact hzero
  -- every failure is older than the lockout, hence than the window
  obtain ⟨⟨e₀, -, rfl⟩, hstale⟩ := get?_kept.mp (get?_prune hget)
  have hnone : l.recent now e₀.failures = [] := by
    apply List.eq_nil_iff_forall_not_mem.mpr
    intro f hf
    have hrecent : now - f < l.window := by simpa using List.of_mem_filter hf
    have hold : f + l.lockout ≤ e₀.lockedUntil := hbefore f hf
    linarith
  exact absurd ⟨hnone, hopen⟩ hstale

theorem firstLock_failing (h : FirstLocks l now) (hzero : ∀ e, l.entries.get? key = some e → e.streak = 0) :
    (l.failing key now).streak = 0 ∧ ∀ f ∈ (l.failing key now).failures, f ≤ now := by
  have hmem (failures : List ℚ) (hf : ∀ f ∈ failures, f ≤ now) : ∀ f ∈ l.recent now (failures ++ [now]), f ≤ now := by
    intro f hrec
    rcases List.mem_append.mp (List.mem_of_mem_filter hrec) with hold | hnew
    · exact hf f hold
    · exact (List.mem_singleton.mp hnew).le
  rw [failing]
  cases hget : l.entries.get? key with
  | none => exact ⟨rfl, hmem [] (List.forall_mem_nil _)⟩
  | some e => exact ⟨hzero e hget, hmem e.failures (h key e hget).failures⟩

theorem failed_lockedUntil (hcap : l.lockout ≤ l.maxLockout) (hzero : (l.failing key now).streak = 0)
    (hlocks : l.locks key now = true) :
    l.failed key now = { l.failing key now with streak := 1, lockedUntil := now + l.lockout } := by
  have hback : l.backoff 0 = l.lockout := by rw [backoff, pow_zero, mul_one, min_eq_left hcap]
  rw [failed, if_pos hlocks, hzero, hback]

theorem firstLock_failed (hcap : l.lockout ≤ l.maxLockout) (h : FirstLocks l now)
    (hzero : ∀ e, l.entries.get? key = some e → e.streak = 0) : FirstLock l.lockout now (l.failed key now) := by
  obtain ⟨hstreak, hfailures⟩ := firstLock_failing h hzero
  by_cases hlocks : l.locks key now = true
  · rw [failed_lockedUntil hcap hstreak hlocks]
    exact ⟨hfailures, .inr ⟨rfl, fun f hf => by linarith [hfailures f hf]⟩⟩
  · rw [failed, if_neg hlocks]
    exact ⟨hfailures, .inl hstreak⟩

end FirstLocks

/-- What holds between attempts: no streak has grown, and every lockout was as long as the first. -/
structure Throttle.Flat (start : LoginRateLimiter) (t : Throttle) (now : ℚ) : Prop where
  limits : t.limiter.window = start.window ∧ t.limiter.lockout = start.lockout ∧
    t.limiter.maxLockout = start.maxLockout
  locks : FirstLocks t.limiter now
  lengths : ∀ x ∈ t.lockouts, x.ends - x.begun = start.lockout

section Runs

variable {start : LoginRateLimiter} {t : Throttle} {now : ℚ}

theorem Throttle.Flat.attempt (hwindow : start.window ≤ start.lockout) (hcap : start.lockout ≤ start.maxLockout)
    (h : t.Flat start now) {a : Attempt} (hasked : now ≤ a.asked) (hfailed : a.asked ≤ a.failed) :
    (t.attempt a).Flat start a.failed := by
  obtain ⟨hw, hl, hm⟩ := h.limits
  have hlocks : FirstLocks t.limiter a.asked := h.locks.later hasked
  have hpruned : FirstLocks (t.limiter.prune a.asked) a.failed := (hlocks.prune a.asked).later hfailed
  rw [Throttle.attempt, check_snd]
  by_cases hallowed : (t.limiter.check a.key a.asked).1.1 = true
  case neg =>
    rw [if_neg hallowed]
    exact ⟨h.limits, hpruned, h.lengths⟩
  rw [if_pos hallowed]
  have hzero (e : LimiterEntry) (hget : (t.limiter.prune a.asked).entries.get? a.key = some e) : e.streak = 0 :=
    streak_of_allowed hlocks (by rw [hw, hl]; exact hwindow) hallowed hget
  have hstreak := (firstLock_failing hpruned hzero).1
  have hroom : ¬ ((t.limiter.prune a.asked).locks a.key a.failed = true ∧
      ((t.limiter.prune a.asked).failing a.key a.failed).streak ≥ 1024) := by
    rintro ⟨-, hover⟩
    omega
  have hcap' : (t.limiter.prune a.asked).lockout ≤ (t.limiter.prune a.asked).maxLockout :=
    hl.le.trans (hcap.trans hm.ge)
  rw [tryRecordFailure_recorded hroom]
  refine ⟨h.limits, ?_, ?_⟩
  · exact (hpruned.set (firstLock_failed hcap' hpruned hzero)).prune a.failed
  · intro x hx
    rcases List.mem_append.mp hx with hold | hnew
    · exact h.lengths x hold
    · split_ifs at hnew with hlocked
      · rw [List.mem_singleton.mp hnew, failed_lockedUntil hcap' hstreak hlocked, add_sub_cancel_left]
        exact hl
      · exact absurd hnew List.not_mem_nil

def attemptTimes (attempts : List Attempt) : List ℚ := attempts.flatMap fun a => [a.asked, a.failed]

theorem after_flat (hwindow : start.window ≤ start.lockout) (hcap : start.lockout ≤ start.maxLockout)
    (h : t.Flat start now) {attempts : List Attempt}
    (hclock : (now :: attemptTimes attempts).Pairwise (· ≤ ·)) :
    ∀ x ∈ (t.after attempts).lockouts, x.ends - x.begun = start.lockout := by
  induction attempts generalizing t now with
  | nil => exact h.lengths
  | cons a attempts ih =>
    have htimes : attemptTimes (a :: attempts) = a.asked :: a.failed :: attemptTimes attempts := rfl
    rw [htimes, List.pairwise_cons, List.pairwise_cons] at hclock
    obtain ⟨hnow, hasked, hrest⟩ := hclock
    exact ih (h.attempt hwindow hcap (hnow _ List.mem_cons_self) (hasked _ List.mem_cons_self)) hrest

end Runs

/-- With the default limits, the lockout of a key that comes after `n` earlier ones has the escalated length
exactly when there was none before it. -/
theorem escalated_lockout_iff_first (attempts : List Attempt) (hclock : (attemptTimes attempts).Pairwise (· ≤ ·))
    (key : String) (n : ℕ) (x : Lockout) (hx : ((Throttle.after {} attempts).lockoutsOf key)[n]? = some x) :
    x.ends - x.begun = min (15*60 * 2^n) (60*60) ↔ n = 0 := by
  have hlength : x.ends - x.begun = 15*60 := by
    have hmem : x ∈ (Throttle.after {} attempts).lockouts := List.mem_of_mem_filter (List.mem_of_getElem? hx)
    cases attempts with
    | nil => exact absurd hmem List.not_mem_nil
    | cons a attempts =>
      have hflat : Throttle.Flat {} {} a.asked := ⟨⟨rfl, rfl, rfl⟩, fun _ _ he => absurd he nofun, nofun⟩
      have hstart : (a.asked :: attemptTimes (a :: attempts)).Pairwise (· ≤ ·) := by
        refine List.pairwise_cons.mpr ⟨fun t ht => ?_, hclock⟩
        rcases List.mem_cons.mp ht with heq | hlater
        · exact heq.ge
        · exact (List.pairwise_cons.mp hclock).1 t hlater
      exact after_flat (by norm_num) (by norm_num) hflat hstart x hmem
  rw [hlength]
  constructor
  · intro h
    by_contra hn
    have hpow : (2 : ℚ)^1 ≤ 2^n := pow_le_pow_right₀ (by norm_num) (Nat.one_le_iff_ne_zero.mpr hn)
    have htwice : (15*60*2 : ℚ) ≤ min (15*60 * 2^n) (60*60) := by
      apply le_min
      · linarith
      · norm_num
    linarith
  · rintro rfl
    norm_num

def resumedAttack : List Attempt :=
  List.replicate 5 ⟨"10.0.0.9", 0, 0⟩ ++ List.replicate 5 ⟨"10.0.0.9", 900, 900⟩

theorem resumedAttack_first :
    (attemptTimes resumedAttack).Pairwise (· ≤ ·) ∧
      ((Throttle.after {} resumedAttack).lockoutsOf "10.0.0.9")[0]? = some ⟨"10.0.0.9", 0, 900⟩ ∧
      (900 : ℚ) - 0 = min (15*60 * 2^0) (60*60) := by
  have hclock : (attemptTimes resumedAttack).Pairwise (· ≤ ·) := by decide +kernel
  have hfirst : ((Throttle.after {} resumedAttack).lockoutsOf "10.0.0.9")[0]? = some ⟨"10.0.0.9", 0, 900⟩ := by
    decide +kernel
  exact ⟨hclock, hfirst, (escalated_lockout_iff_first resumedAttack hclock "10.0.0.9" 0 _ hfirst).mpr rfl⟩

theorem resumedAttack_second_not_doubled :
    ((Throttle.after {} resumedAttack).lockoutsOf "10.0.0.9")[1]? = some ⟨"10.0.0.9", 900, 1800⟩ ∧
      (1800 : ℚ) - 900 ≠ min (15*60 * 2^1) (60*60) := by
  refine ⟨by decide +kernel, ?_⟩
  norm_num

end PiBuddyCam.Admin
