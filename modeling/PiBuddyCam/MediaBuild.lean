import Mathlib.Logic.Function.Basic
import Mathlib.Data.List.Nodup
import Mathlib.Tactic.SplitIfs
import PiBuddyCam.StepRuns

/-! The build manager of `app/media_build.py`: its jobs, and the queue of session builds. A step is a
critical section of one thread, or what a thread does between two of them. -/
namespace PiBuddyCam.MediaBuild

inductive JobState where
  | pending
  | running
  | done
  | error
  deriving DecidableEq

def JobState.active (j : JobState) : Bool := j = .pending || j = .running

def maxJobs : ℕ := 8

def queueMaxRetries : ℕ := 120

/-- What `start` finds: the frames, their bytes, and the free space. -/
structure Preflight where
  truncated : Bool := false
  count : ℕ := 1
  total : ℕ := 0
  free : Option ℕ := some 1073741824

def Preflight.refusal (p : Preflight) : Option String :=
  if p.truncated then some "frame backlog too large to scan safely"
  else if p.count = 0 then some "no frames to build"
  else if 20000 < p.count then some "too many frames for one build"
  else if 2 * 1024 * 1024 * 1024 < p.total then some "input frames exceed the build size limit"
  else if p.free.all (· < p.total + p.count * 16 + 4096 + 32 * 1024 * 1024) then
    some "insufficient free space for the build"
  else none

/-- How a build ends: with or without a path, or by an exception. -/
inductive Built where
  | returned (path : Bool)
  | raised

def Built.done (stop : Bool) : Built → Bool
  | .returned path => path && !stop
  | .raised => false

/-- What the outside settles for a step: for `start` the new id and thread, whether the session is found,
whether the lock file can be had and whether a thread can be started. -/
structure Choice where
  id : ℕ := 0
  worker : ℕ := 0
  found : Bool := true
  preflight : Preflight := {}
  lockFree : Bool := true
  spawns : Bool := true
  built : Built := .returned true

/-- A request for a session. Its ticket tells the calls of `enqueue_session` apart, and the entries of the
queue with them. -/
structure Item where
  session : String
  ticket : ℕ
  deriving DecidableEq

/-- Where a thread is: in `_run`, in `_drain_queue` or in `enqueue_session`. It calls `start` for an entry of
the queue, with the attempts so far, or for a new request. -/
inductive Thread where
  | idle
  | waiting (id : ℕ)
  | building (id : ℕ)
  | ending (id : ℕ) (done : Bool)
  | draining
  | calling (item : Item) (attempts : Option ℕ)
  | counting (item : Item) (attempts : ℕ)
  | removing (item : Item) (again : Bool)
  | givingUp (item : Item)
  | appending (item : Item)
  | scheduling
  deriving DecidableEq

/-- `attempts` is the last field of the entries of the queue. `tickets` and `started` are history: the calls
of `enqueue_session`, and those whose session was started. -/
structure State where
  jobs : List (ℕ × JobState) := []
  order : List ℕ := []
  lockHeld : Bool := false
  stop : Bool := false
  queue : List Item := []
  attempts : ℕ → ℕ := fun _ => 0
  timer : Bool := false
  threads : ℕ → Thread := fun _ => .idle
  tickets : ℕ := 0
  started : List ℕ := []

inductive Answer where
  | started
  | busy
  | rejected (reason : String)
  deriving DecidableEq

/-- `start` is a call from the console, and `fire` the end of the retry timer; `stop` has two parts. -/
inductive Event where
  | start (c : Choice)
  | enqueue (k : ℕ) (session : String)
  | fire (k : ℕ)
  | advance (k : ℕ) (c : Choice)
  | setStop
  | clearQueue

def isActive (jobs : List (ℕ × JobState)) (id : ℕ) : Bool := jobs.any fun x => x.1 = id && x.2.active

def State.goTo (s : State) (k : ℕ) (thread : Thread) : State :=
  { s with threads := Function.update s.threads k thread }

def prune : List ℕ → List (ℕ × JobState) → List ℕ × List (ℕ × JobState)
  | [], jobs => ([], jobs)
  | id :: order, jobs =>
    if maxJobs < order.length + 1 then
      if isActive jobs id then (id :: order, jobs) else prune order (jobs.filter (·.1 ≠ id))
    else (id :: order, jobs)

/-- The job in place and the lock taken, up to the start of the thread. -/
def State.addJob (s : State) (id : ℕ) : State :=
  let kept := prune (s.order ++ [id]) (s.jobs ++ [(id, .pending)])
  { s with order := kept.1, jobs := kept.2, lockHeld := true, stop := false }

/-- The way back when no thread can be started. -/
def State.dropJob (s : State) (id : ℕ) : State :=
  { s with order := s.order.filter (· ≠ id), jobs := s.jobs.filter (·.1 ≠ id), lockHeld := false }

/-- `start`; `uuid4` yields no id that is in use. -/
def State.start (s : State) (c : Choice) : Option (State × Answer) :=
  if c.id ∈ s.jobs.map Prod.fst ∨ s.threads c.worker ≠ .idle then none
  else if c.found = false then some (s, .rejected "unknown session")
  else if s.order.any (isActive s.jobs) then some (s, .busy)
  else match c.preflight.refusal with
    | some reason => some (s, .rejected reason)
    | none =>
      if s.lockHeld = true ∨ c.lockFree = false then some (s, .busy)
      else if c.spawns then some ((s.addJob c.id).goTo c.worker (.waiting c.id), .started)
      else some ((s.addJob c.id).dropJob c.id, .rejected "build failed")

/-- The state that `_update` and `_finish` give a job. -/
def State.setJob (s : State) (id : ℕ) (j : JobState) : State :=
  { s with jobs := s.jobs.map fun x => if x.1 = id then (id, j) else x }

/-- `if item in self._queue: self._queue.remove(item)`, which compares the contents. -/
def State.remove (s : State) (item : Item) : State :=
  { s with queue := s.queue.eraseP fun i => i.session = item.session ∧ s.attempts i.ticket = s.attempts item.ticket }

/-- What the caller of `start` does next. -/
def Answer.next (item : Item) : Option ℕ → Answer → Thread
  | some _, .started => .removing item false
  | some attempts, .busy => .counting item attempts
  | some _, .rejected _ => .removing item true
  | none, .busy => .appending item
  | none, _ => .idle

def State.advance (s : State) (k : ℕ) (c : Choice) : Option State :=
  match s.threads k with
  | .idle => none
  | .waiting id => some ((s.setJob id .running).goTo k (.building id))
  | .building id => some (s.goTo k (.ending id (c.built.done s.stop)))
  | .ending id done => some ({ s.setJob id (if done then .done else .error) with lockHeld := false }.goTo k .draining)
  | .draining =>
    match s.queue with
    | [] => some (s.goTo k .idle)
    | item :: _ => some (s.goTo k (.calling item (some (s.attempts item.ticket))))
  | .calling item attempts => (s.start c).map fun r =>
      { r.1 with started := if r.2 = Answer.started then item.ticket :: s.started else s.started }.goTo k
        (r.2.next item attempts)
  | .counting item attempts =>
    some ({ s with attempts := Function.update s.attempts item.ticket (attempts + 1) }.goTo k
      (if queueMaxRetries ≤ attempts + 1 then .givingUp item else .scheduling))
  | .removing item again => some ((s.remove item).goTo k (if again then .draining else .idle))
  | .givingUp item => some ((s.remove item).goTo k .idle)
  | .appending item =>
    some ({ s with
      queue := if s.queue.any (·.session = item.session) then s.queue else s.queue ++ [item]
      attempts := Function.update s.attempts item.ticket 0 }.goTo k .scheduling)
  | .scheduling => some ({ s with timer := s.timer || !s.queue.isEmpty }.goTo k .idle)

def step (s : State) : Event → Option State
  | .start c => (s.start c).map Prod.fst
  | .enqueue k session =>
    if s.threads k = .idle then
      some ({ s with tickets := s.tickets + 1 }.goTo k (.calling ⟨session, s.tickets⟩ none))
    else none
  | .fire k => if s.timer = true ∧ s.threads k = .idle then some ({ s with timer := false }.goTo k .draining) else none
  | .advance k c => s.advance k c
  | .setStop => some { s with stop := true }
  | .clearQueue => some { s with queue := [], timer := false }

variable {s t : State} {c : Choice} {r : Answer} {k id : ℕ}

theorem start_cases (h : s.start c = some (t, r)) : (t = s ∧ r ≠ .started) ∨
    (c.id ∉ s.jobs.map Prod.fst ∧ s.threads c.worker = .idle ∧ s.order.any (isActive s.jobs) = false ∧
      ((t = (s.addJob c.id).goTo c.worker (.waiting c.id) ∧ r = .started) ∨
        (t = (s.addJob c.id).dropJob c.id ∧ r ≠ .started))) := by
  rw [State.start] at h
  split at h
  · cases h
  next hfresh =>
  rw [not_or, not_not] at hfresh
  split at h
  · cases h
    exact Or.inl ⟨rfl, by simp⟩
  split at h
  · cases h
    exact Or.inl ⟨rfl, by simp⟩
  next hbusy =>
  split at h
  · cases h
    exact Or.inl ⟨rfl, by simp⟩
  split at h
  · cases h
    exact Or.inl ⟨rfl, by simp⟩
  refine Or.inr ⟨hfresh.1, hfresh.2, Bool.not_eq_true _ ▸ hbusy, ?_⟩
  split at h <;> cases h
  · exact Or.inl ⟨rfl, rfl⟩
  · exact Or.inr ⟨rfl, by simp⟩

section Jobs

/-- At most one job is active, and the lock is held exactly while one is; the order names the jobs that are
stored, once each, and no more than `maxJobs`. -/
structure Sound (s : State) : Prop where
  one : ∀ a b, isActive s.jobs a = true → isActive s.jobs b = true → a = b
  locked : s.lockHeld = true ↔ ∃ id, isActive s.jobs id = true
  nodup : s.order.Nodup
  stored : s.order = s.jobs.map Prod.fst
  kept : s.order.length ≤ maxJobs

def Thread.job : Thread → Option ℕ
  | .waiting id => some id
  | .building id => some id
  | .ending id _ => some id
  | _ => none

/-- The same by parts: the active job, if there is one, is the last, and the thread `w` works on it. -/
structure Inv (jobs : List (ℕ × JobState)) (order : List ℕ) (lockHeld : Bool) (threads : ℕ → Thread)
    (old : List (ℕ × JobState)) (cur : Option (ℕ × JobState)) (w : ℕ) : Prop where
  jobs_eq : jobs = old ++ cur.toList
  order_eq : order = jobs.map Prod.fst
  nodup : order.Nodup
  kept : order.length ≤ maxJobs
  quiet : ∀ x ∈ old, x.2.active = false
  active : ∀ x, cur = some x → x.2.active = true
  locked : lockHeld = cur.isSome
  worked : ∀ k, (threads k).job = if k = w then cur.map Prod.fst else none

def State.Ok (s : State) : Prop := ∃ old cur w, Inv s.jobs s.order s.lockHeld s.threads old cur w

variable {old : List (ℕ × JobState)} {cur : Option (ℕ × JobState)} {w : ℕ}

theorem isActive_append (hold : ∀ x ∈ old, x.2.active = false) (hcur : ∀ x, cur = some x → x.2.active = true)
    (id : ℕ) :
    isActive (old ++ cur.toList) id = true ↔ cur.map Prod.fst = some id := by
  have hnone : old.any (fun x => x.1 = id && x.2.active) = false := by
    rw [List.any_eq_false]
    intro x hx
    simp [hold x hx]
  rw [isActive, List.any_append, hnone]
  cases cur with
  | none => simp
  | some x => simp [hcur x rfl]

/-- The loop drops from the front, and stops before the new job. -/
theorem prune_spec (new : ℕ × JobState) (hnodup : (old.map Prod.fst ++ [new.1]).Nodup)
    (hold : ∀ x ∈ old, x.2.active = false) :
    ∃ kept, prune (old.map Prod.fst ++ [new.1]) (old ++ [new]) = (kept.map Prod.fst ++ [new.1], kept ++ [new]) ∧
      kept <:+ old ∧ kept.length < maxJobs := by
  induction old with
  | nil => exact ⟨[], rfl, List.suffix_rfl, by decide⟩
  | cons first old ih =>
    obtain ⟨hfirst, hrest⟩ := List.nodup_cons.mp hnodup
    have hkeys (x : ℕ × JobState) (hx : x ∈ old ++ [new]) : x.1 ≠ first.1 := by
      intro heq
      have hmem := List.mem_map_of_mem (f := Prod.fst) hx
      rw [List.map_append, heq] at hmem
      exact hfirst hmem
    rw [List.map_cons, List.cons_append, List.cons_append, prune]
    split
    · have hidle : isActive (first :: (old ++ [new])) first.1 = false := by
        rw [isActive, List.any_cons, hold first List.mem_cons_self, Bool.and_false, Bool.false_or, List.any_eq_false]
        intro x hx
        simp [hkeys x hx]
      have hfilter : (first :: (old ++ [new])).filter (·.1 ≠ first.1) = old ++ [new] := by
        rw [List.filter_cons_of_neg (by simp), List.filter_eq_self.mpr fun x hx => by simpa using hkeys x hx]
      obtain ⟨kept, hprune, hsuffix, hlen⟩ := ih hrest fun x hx => hold x (List.mem_cons_of_mem first hx)
      rw [hidle, hfilter]
      exact ⟨kept, hprune, hsuffix.trans (List.suffix_cons first old), hlen⟩
    · next hshort =>
      rw [List.length_append, List.length_map, List.length_singleton] at hshort
      exact ⟨first :: old, rfl, List.suffix_rfl, by rw [List.length_cons]; omega⟩

theorem Inv.sound (h : Inv s.jobs s.order s.lockHeld s.threads old cur w) : Sound s := by
  have hactive := isActive_append h.quiet h.active
  rw [← h.jobs_eq] at hactive
  refine ⟨fun a b ha hb => ?_, ?_, h.nodup, h.order_eq, h.kept⟩
  · exact Option.some.inj (((hactive a).mp ha).symm.trans ((hactive b).mp hb))
  · rw [h.locked]
    cases hcur : cur with
    | none => simp [hactive, hcur]
    | some x => simp [hactive, hcur]

theorem ok_start (h : s.Ok) (hstart : s.start c = some (t, r)) : t.Ok := by
  obtain ⟨rfl, -⟩ | ⟨hnew, hworker, hidle, hcases⟩ := start_cases hstart
  · exact h
  obtain ⟨old, cur, w, h⟩ := h
  obtain rfl : cur = none := by
    by_contra hcur
    obtain ⟨x, rfl⟩ := Option.ne_none_iff_exists'.mp hcur
    have hactive : isActive s.jobs x.1 = true := h.jobs_eq ▸ (isActive_append h.quiet h.active x.1).mpr rfl
    have hmem : x.1 ∈ s.order := h.order_eq ▸ List.mem_map_of_mem (h.jobs_eq ▸ by simp)
    exact absurd (List.any_eq_true.mpr ⟨x.1, hmem, hactive⟩) (hidle ▸ Bool.false_ne_true)
  have hjobs : s.jobs = old := h.jobs_eq.trans (List.append_nil old)
  have horder : s.order = old.map Prod.fst := hjobs ▸ h.order_eq
  have hnodup : (old.map Prod.fst ++ [c.id]).Nodup :=
    (horder ▸ h.nodup).append (List.nodup_singleton _) (List.disjoint_singleton.mpr (hjobs ▸ hnew))
  obtain ⟨kept, hprune, hsuffix, hlen⟩ := prune_spec (c.id, .pending) hnodup h.quiet
  have hadd : (s.addJob c.id).jobs = kept ++ [(c.id, .pending)] ∧
      (s.addJob c.id).order = kept.map Prod.fst ++ [c.id] := by
    simp only [State.addJob, hjobs, horder, hprune, and_self]
  have hkept : (kept.map Prod.fst ++ [c.id]).Nodup :=
    hnodup.sublist ((hsuffix.sublist.map Prod.fst).append (List.Sublist.refl _))
  have hquiet (x : ℕ × JobState) (hx : x ∈ kept) : x.2.active = false := h.quiet x (hsuffix.subset hx)
  have hthread (l : ℕ) : (s.threads l).job = none := (h.worked l).trans (ite_self _)
  obtain ⟨rfl, -⟩ | ⟨rfl, -⟩ := hcases
  · refine ⟨kept, some (c.id, .pending), c.worker, hadd.1, ?_, ?_, ?_, hquiet, ?_, rfl, fun l => ?_⟩
    · simp [State.goTo, hadd]
    · simpa only [State.goTo, hadd.2] using hkept
    · simp only [State.goTo, hadd.2, List.length_append, List.length_map, List.length_singleton]
      omega
    · exact fun x hx => Option.some.inj hx ▸ rfl
    · by_cases hl : l = c.worker
      · simp [State.goTo, hl, Thread.job]
      · simpa [State.goTo, State.addJob, hl] using hthread l
  · have hne (a : ℕ) (ha : a ∈ kept.map Prod.fst) : decide (a ≠ c.id) = true :=
      decide_eq_true ((List.nodup_append.mp hkept).2.2 a ha c.id List.mem_cons_self)
    have hjobs : ((s.addJob c.id).dropJob c.id).jobs = kept := by
      rw [State.dropJob, hadd.1, List.filter_append,
        List.filter_eq_self.mpr fun x hx => hne x.1 (List.mem_map_of_mem hx)]
      simp
    have horder : ((s.addJob c.id).dropJob c.id).order = kept.map Prod.fst := by
      rw [State.dropJob, hadd.2, List.filter_append, List.filter_eq_self.mpr hne]
      simp
    refine ⟨kept, none, w, by simp [hjobs], by rw [hjobs, horder], ?_, ?_, hquiet, by simp, rfl, ?_⟩
    · exact horder ▸ (List.nodup_append.mp hkept).1
    · rw [horder, List.length_map]
      exact Nat.le_of_lt hlen
    · exact fun l => (hthread l).trans (ite_self _).symm

theorem ok_goTo (h : s.Ok) {thread : Thread} (hjob : thread.job = (s.threads k).job) : (s.goTo k thread).Ok := by
  obtain ⟨old, cur, w, h⟩ := h
  refine ⟨old, cur, w, h.jobs_eq, h.order_eq, h.nodup, h.kept, h.quiet, h.active, h.locked, fun l => ?_⟩
  rw [← h.worked l]
  by_cases hl : l = k
  · simp [State.goTo, hl, hjob]
  · simp [State.goTo, hl]

/-- The thread that works on the job goes on with it, or ends it and gives the lock back. -/
theorem ok_setJob (h : s.Ok) {j : JobState} (thread : Thread) (hjob : (s.threads k).job = some id)
    (hthread : thread.job = if j.active then some id else none) :
    ({ s.setJob id j with lockHeld := j.active && s.lockHeld }.goTo k thread).Ok := by
  obtain ⟨old, cur, w, h⟩ := h
  have hwork := h.worked k
  rw [hjob] at hwork
  split_ifs at hwork with hk
  subst hk
  obtain ⟨x, rfl, rfl⟩ := Option.map_eq_some_iff.mp hwork.symm
  have hne (y : ℕ × JobState) (hy : y ∈ old) : y.1 ≠ x.1 := by
    have hnodup := h.order_eq ▸ h.nodup
    rw [h.jobs_eq, Option.toList_some, List.map_append] at hnodup
    exact (List.nodup_append.mp hnodup).2.2 y.1 (List.mem_map_of_mem hy) x.1 (by simp)
  have hjobs : (s.setJob x.1 j).jobs = old ++ [(x.1, j)] := by
    rw [State.setJob, h.jobs_eq, List.map_append, List.map_congr_left fun y hy => if_neg (hne y hy)]
    simp
  have hkeys : s.order = (s.setJob x.1 j).jobs.map Prod.fst := by
    rw [hjobs, h.order_eq, h.jobs_eq]
    simp
  have hworked (l : ℕ) : (({ s.setJob x.1 j with lockHeld := j.active && s.lockHeld }.goTo k thread).threads l).job =
      if l = k then thread.job else none := by
    by_cases hl : l = k
    · simp [State.goTo, hl]
    · simpa [State.goTo, State.setJob, hl] using h.worked l
  rw [hthread] at hworked
  cases hj : j.active with
  | true =>
    rw [hj] at hworked
    refine ⟨old, some (x.1, j), k, hjobs, hkeys, h.nodup, h.kept, h.quiet, ?_, h.locked, hworked⟩
    exact fun y hy => Option.some.inj hy ▸ hj
  | false =>
    rw [hj] at hworked
    refine ⟨old ++ [(x.1, j)], none, k, hjobs.trans (List.append_nil _).symm, hkeys, h.nodup, h.kept, ?_, by simp,
      rfl, hworked⟩
    exact List.forall_mem_append.mpr ⟨h.quiet, List.forall_mem_singleton.mpr hj⟩

theorem threads_start (hstart : s.start c = some (t, r)) (hk : s.threads k ≠ .idle) : t.threads k = s.threads k := by
  obtain ⟨rfl, -⟩ | ⟨-, hworker, -, ⟨rfl, -⟩ | ⟨rfl, -⟩⟩ := start_cases hstart
  · rfl
  · have hne : k ≠ c.worker := fun heq => hk (heq ▸ hworker)
    simp [State.goTo, State.addJob, hne]
  · rfl

theorem ok_step (s : State) (e : Event) (t : State) (h : s.Ok) (hstep : step s e = some t) : t.Ok := by
  have hadvance (k : ℕ) (c : Choice) (hstep : s.advance k c = some t) : t.Ok := by
    unfold State.advance at hstep
    split at hstep
    · cases hstep
    · next id hk =>
      cases hstep
      exact ok_setJob (j := .running) h _ (by simp [hk, Thread.job]) rfl
    · next id hk =>
      cases hstep
      exact ok_goTo h (by simp [hk, Thread.job])
    · next id done hk =>
      cases hstep
      have hset := ok_setJob (j := if done then .done else .error) h .draining
        (by simp [hk, Thread.job] : (s.threads k).job = some id)
      cases done <;> exact hset rfl
    · next hk =>
      split at hstep <;> cases hstep <;> exact ok_goTo h (by simp [hk, Thread.job])
    · next item attempts hk =>
      obtain ⟨⟨u, r⟩, hstart, rfl⟩ := Option.map_eq_some_iff.mp hstep
      have huk := threads_start hstart (by simp [hk] : s.threads k ≠ .idle)
      refine ok_goTo (s := { u with started := _ }) (ok_start h hstart) ?_
      change _ = (u.threads k).job
      rw [huk, hk]
      cases attempts <;> cases r <;> rfl
    · next item attempts hk =>
      cases hstep
      refine ok_goTo (s := { s with attempts := _ }) h ?_
      change _ = (s.threads k).job
      rw [hk]
      split_ifs <;> rfl
    · next item again hk =>
      cases hstep
      refine ok_goTo (s := s.remove item) h ?_
      change _ = (s.threads k).job
      rw [hk]
      cases again <;> rfl
    · next item hk =>
      cases hstep
      exact ok_goTo (s := s.remove item) h (congrArg Thread.job hk).symm
    · next item hk =>
      cases hstep
      exact ok_goTo (s := { s with queue := _, attempts := _ }) h (congrArg Thread.job hk).symm
    · next hk =>
      cases hstep
      exact ok_goTo (s := { s with timer := _ }) h (congrArg Thread.job hk).symm
  cases e with
  | start c =>
    obtain ⟨⟨u, r⟩, hstart, rfl⟩ := Option.map_eq_some_iff.mp hstep
    exact ok_start h hstart
  | enqueue k session =>
    simp only [step] at hstep
    split_ifs at hstep with hk
    exact Option.some.inj hstep ▸ ok_goTo (s := { s with tickets := _ }) h (congrArg Thread.job hk).symm
  | fire k =>
    simp only [step] at hstep
    split_ifs at hstep with hk
    exact Option.some.inj hstep ▸ ok_goTo (s := { s with timer := _ }) h (congrArg Thread.job hk.2).symm
  | advance k c => exact hadvance k c hstep
  | setStop => exact Option.some.inj hstep ▸ h
  | clearQueue => exact Option.some.inj hstep ▸ h

theorem jobs_sound {events : List Event} (hrun : StepRuns.run step {} events = some s) : Sound s := by
  have hinit : State.Ok {} :=
    ⟨[], none, 0, rfl, rfl, List.nodup_nil, by decide, by simp, by simp, rfl, fun k => by simp [Thread.job]⟩
  obtain ⟨old, cur, w, h⟩ := StepRuns.inv_of_steps ok_step hinit hrun
  exact h.sound

def oneBuild : List Event := [.start {}, .advance 0 {}, .start { id := 1, worker := 1 }, .advance 0 {}, .advance 0 {}]

theorem one_build_sound : ∃ s, StepRuns.run step {} oneBuild = some s ∧ Sound s := by
  have hrun : StepRuns.run step {} oneBuild = some _ := rfl
  exact ⟨_, hrun, jobs_sound hrun⟩

end Jobs

end PiBuddyCam.MediaBuild
