import Mathlib.Data.List.MinMax
import Mathlib.Data.List.Sort
import Mathlib.Algebra.Order.Ring.Unbundled.Rat
import PiBuddyCam.OrderedDict

/-! `admin_auth.py`: the table of sessions and the login rate limiter. -/
namespace PiBuddyCam.Admin

structure Session where
  csrf : String
  created : ℚ
  lastSeen : ℚ
  idleTtl : ℚ
  absoluteTtl : ℚ

def Session.expired (r : Session) (now : ℚ) : Bool :=
  now - r.created ≥ r.absoluteTtl || now - r.lastSeen ≥ r.idleTtl

structure SessionStore where
  idleTtl : ℚ := 30*60
  absoluteTtl : ℚ := 12*60*60
  maxSessions : ℤ := 256
  sessions : OrderedDict String Session := .empty

namespace SessionStore

def prune (s : SessionStore) (now : ℚ) : SessionStore :=
  { s with sessions := s.sessions.filter fun e => !e.2.expired now }

/-- The draw that ends the loop of `create`, from the `n`th on. The drawn tokens are
distinct, so that there are at most as many rounds as sessions. -/
def firstFree (s : SessionStore) (tokens : ℕ → String) : ℕ → ℕ → ℕ
  | 0, n => n
  | rounds+1, n => if (s.sessions.get? (tokens n)).isSome then firstFree s tokens rounds (n+1) else n

def insert (s : SessionStore) (token csrf : String) (now : ℚ) : SessionStore :=
  { s with sessions := s.sessions.set token ⟨csrf, now, now, s.idleTtl, s.absoluteTtl⟩ }

def oldest (s : SessionStore) : Option String :=
  (s.sessions.entries.argmin fun e => e.2.lastSeen).map Prod.fst

def drop (s : SessionStore) (token : String) : SessionStore := { s with sessions := s.sessions.pop token }

def validate (s : SessionStore) (token : String) (now : ℚ) : Bool × SessionStore :=
  match s.sessions.get? token with
  | none => (false, s)
  | some r =>
    if r.expired now then (false, s.drop token)
    else (true, { s with sessions := s.sessions.set token { r with lastSeen := now } })

def csrfFor (s : SessionStore) (token : String) : Option String := (s.sessions.get? token).map Session.csrf

theorem validate_cases (s : SessionStore) (token : String) (now : ℚ) :
    (s.sessions.get? token = none ∧ s.validate token now = (false, s)) ∨
    ∃ r, s.sessions.get? token = some r ∧ (r.expired now = true ∧ s.validate token now = (false, s.drop token) ∨
      r.expired now = false ∧
        s.validate token now = (true, { s with sessions := s.sessions.set token { r with lastSeen := now } })) := by
  unfold validate
  cases s.sessions.get? token with
  | none => exact Or.inl ⟨rfl, rfl⟩
  | some r =>
    refine Or.inr ⟨r, rfl, ?_⟩
    cases hexp : r.expired now with
    | true => exact Or.inl ⟨rfl, if_pos hexp⟩
    | false => exact Or.inr ⟨rfl, if_neg (Bool.eq_false_iff.mp hexp)⟩

end SessionStore

structure LimiterEntry where
  failures : List ℚ := []
  lockedUntil : ℚ := 0
  streak : ℕ := 0
  deriving DecidableEq

structure LoginRateLimiter where
  maxAttempts : ℤ := 5
  window : ℚ := 5*60
  lockout : ℚ := 15*60
  maxLockout : ℚ := 60*60
  maxKeys : ℤ := 1024
  entries : OrderedDict String LimiterEntry := .empty

namespace LoginRateLimiter

def recent (l : LoginRateLimiter) (now : ℚ) (failures : List ℚ) : List ℚ :=
  failures.filter fun t => now - t < l.window

def activity (e : LimiterEntry) : ℚ := max (e.failures.getLast?.getD 0) e.lockedUntil

/-- The entries that go when there are too many keys: those of least activity. -/
def surplus (l : LoginRateLimiter) (entries : OrderedDict String LimiterEntry) : List String :=
  ((entries.entries.insertionSort fun a b => activity a.2 ≤ activity b.2).take
    ((entries.entries.length : ℤ) - l.maxKeys).toNat).map Prod.fst

def prune (l : LoginRateLimiter) (now : ℚ) : LoginRateLimiter :=
  let kept := (l.entries.mapValues fun e => { e with failures := l.recent now e.failures }).filter
    fun e => !(e.2.failures.isEmpty && e.2.lockedUntil ≤ now)
  { l with entries := kept.filter fun e => !(l.surplus kept).contains e.1 }

def check (l : LoginRateLimiter) (key : String) (now : ℚ) : (Bool × ℚ) × LoginRateLimiter :=
  let l := l.prune now
  match l.entries.get? key with
  | none => ((true, 0), l)
  | some e => if e.lockedUntil > now then ((false, e.lockedUntil - now), l) else ((true, 0), l)

def recordFailure (l : LoginRateLimiter) (key : String) (now : ℚ) : LoginRateLimiter :=
  let e := (l.entries.get? key).getD {}
  let e := { e with failures := l.recent now (e.failures ++ [now]) }
  let e :=
    if (e.failures.length : ℤ) ≥ l.maxAttempts then
      { e with streak := e.streak+1, lockedUntil := now + min (l.lockout * 2^e.streak) l.maxLockout }
    else e
  LoginRateLimiter.prune { l with entries := l.entries.set key e } now

def recordSuccess (l : LoginRateLimiter) (key : String) : LoginRateLimiter :=
  { l with entries := l.entries.pop key }

end LoginRateLimiter

end PiBuddyCam.Admin
