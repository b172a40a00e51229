import Mathlib.Data.List.Basic
import PiBuddyCam.StepRuns

/-! `_handle_local_webrtc_ws` of `admin_app.py` over the `ViewerRegistry` of
`local_webrtc_signaling.py`: the slots in use while viewers connect, signal and leave. -/
namespace PiBuddyCam.ViewerSlots

/-- What the next item of `async for msg in ws` is: a text by what `parse_client_message` makes of it
(`bad` where it refuses), a closing or error frame, another frame, or the end of the messages. -/
inductive Message where
  | answer | ice | stop | bad | closing | other | over

/-- How a call that a handler waits for comes back. A cancellation is raised at the call as well. -/
inductive Answer where
  | done
  | message (m : Message)
  | raised

/-- The call that a handler makes or awaits. -/
inductive Place where
  -- no slot: `viewer_limit` is sent
  | refusePrepare | refuseSend | refuseClose
  -- a slot is held and the `try` not entered
  | prepare | importPipeline | construct
  -- inside the `try`
  | start | receive | sendError | handleAnswer | addIceCandidate
  -- its `finally`
  | stop
  | ended
  deriving DecidableEq

def Place.next : Place → Answer → Option Place
  | .refusePrepare, .done => some .refuseSend
  | .refuseSend, .done => some .refuseClose
  | .refuseClose, .done => some .ended
  | .prepare, .done => some .importPipeline
  | .importPipeline, .done => some .construct
  | .construct, .done => some .start
  | .refusePrepare, .raised | .refuseSend, .raised | .refuseClose, .raised
  | .prepare, .raised | .importPipeline, .raised | .construct, .raised => some .ended
  | .start, .done | .sendError, .done | .handleAnswer, .done | .addIceCandidate, .done => some .receive
  | .receive, .message .bad => some .sendError
  | .receive, .message .answer => some .handleAnswer
  | .receive, .message .ice => some .addIceCandidate
  | .receive, .message .other => some .receive
  | .receive, .message .stop | .receive, .message .closing | .receive, .message .over => some .stop
  | .start, .raised | .receive, .raised | .sendError, .raised | .handleAnswer, .raised
  | .addIceCandidate, .raised => some .stop
  | .stop, .done | .stop, .raised => some .ended
  | _, _ => none

structure Handler where
  place : Place
  acquired : Bool := false
  /-- How often the handler has called `release`. -/
  releases : ℕ := 0

/-- `release` follows a `stop` that returns. -/
def Place.releases : Place → Answer → Bool
  | .stop, .done => true
  | _, _ => false

def Handler.answered (h : Handler) (a : Answer) (p : Place) : Handler :=
  { h with place := p, releases := if h.place.releases a then h.releases + 1 else h.releases }

def tryAcquire (maxViewers active : ℕ) : Option ℕ := if maxViewers ≤ active then none else some (active + 1)

def release (active : ℕ) : ℕ := if 0 < active then active - 1 else active

structure Server where
  active : ℕ := 0
  handlers : List Handler := []

inductive Event where
  /-- A handler starts; its origin and session are checked before anything else. -/
  | connect (allowed : Bool)
  | answer (i : ℕ) (a : Answer)

/-- One step of the event loop. The registry is `none` where local WebRTC is switched off. -/
def step (registry : Option ℕ) (s : Server) : Event → Option Server
  | .connect false => some { s with handlers := s.handlers ++ [{ place := .ended }] }
  | .connect true =>
    match registry.bind fun maxViewers => tryAcquire maxViewers s.active with
    | none => some { s with handlers := s.handlers ++ [{ place := .refusePrepare }] }
    | some active => some ⟨active, s.handlers ++ [{ place := .prepare, acquired := true }]⟩
  | .answer i a => do
    let h ← s.handlers[i]?
    let p ← h.place.next a
    let active := if h.place.releases a then release s.active else s.active
    some ⟨active, s.handlers.set i (h.answered a p)⟩

def Handler.holding (h : Handler) : Bool := h.acquired && decide (h.place ≠ .ended)

/-- Every slot is given back exactly once when its handler has ended, and the slots in use are those of
the handlers that run. -/
def Balanced (s : Server) : Prop :=
  (∀ h ∈ s.handlers, h.acquired = true → h.releases = if h.place = .ended then 1 else 0) ∧
    s.active = s.handlers.countP Handler.holding

/-- The calls that no `finally` with a `release` stands behind. -/
def Place.unguarded : Place → Bool
  | .prepare | .importPipeline | .construct | .stop => true
  | _ => false

/-- Nothing is raised at an unguarded call. -/
def Guarded (s : Server) : Event → Prop
  | .answer i .raised => ∀ h, s.handlers[i]? = some h → h.place.unguarded = false
  | _ => True

/-- What a handler has done with its slot, by its place. -/
def Handler.Fits (h : Handler) : Prop :=
  match h.place with
  | .refusePrepare | .refuseSend | .refuseClose => h.acquired = false ∧ h.releases = 0
  | .ended => h.releases = if h.acquired then 1 else 0
  | _ => h.acquired = true ∧ h.releases = 0

def Fits (s : Server) : Prop :=
  (∀ h ∈ s.handlers, h.Fits) ∧ s.active = s.handlers.countP Handler.holding

/-- A handler has ended and kept its slot. -/
def Leaked (s : Server) : Prop := ∃ h ∈ s.handlers, h.acquired = true ∧ h.place = .ended ∧ h.releases = 0

variable {registry : Option ℕ} {s t : Server} {e : Event} {h : Handler} {i : ℕ} {a : Answer} {p : Place}

theorem Fits.balanced (hs : Fits s) : Balanced s := by
  refine ⟨fun h hh ha => ?_, hs.2⟩
  have hfits := hs.1 h hh
  obtain ⟨place, acquired, releases⟩ := h
  cases place <;> simp_all [Handler.Fits]

theorem not_leaked_of_balanced (hs : Balanced s) : ¬ Leaked s := by
  rintro ⟨h, hh, ha, hp, hr⟩
  have := hs.1 h hh ha
  simp [hp, hr] at this

/-- A guarded call leaves its handler with what it holds, or is the `stop` after which the slot is given
back. -/
theorem Handler.Fits.answered (hh : h.Fits) (hp : h.place.next a = some p)
    (hraised : a = .raised → h.place.unguarded = false) : (h.answered a p).Fits ∧
      ((h.answered a p).holding = h.holding ∧ h.place.releases a = false ∨
        (h.answered a p).holding = false ∧ h.holding = true ∧ h.place.releases a = true) := by
  obtain ⟨place, acquired, releases⟩ := h
  cases a with
  | done =>
    cases place <;> cases hp <;>
      simp_all [Handler.Fits, Handler.answered, Handler.holding, Place.releases]
  | message m =>
    cases place <;> cases m <;> cases hp <;> exact ⟨hh, .inl ⟨rfl, rfl⟩⟩
  | raised =>
    have := hraised rfl
    cases place <;> cases hp <;>
      simp_all [Handler.Fits, Handler.answered, Place.unguarded, Handler.holding, Place.releases]

/-- A new handler holds a slot exactly if it took one. -/
theorem step_connect {allowed : Bool} (hst : step registry s (.connect allowed) = some t) : ∃ h : Handler,
    h.Fits ∧ t.handlers = s.handlers ++ [h] ∧ t.active = s.active + if h.holding then 1 else 0 := by
  cases allowed with
  | false =>
    cases hst
    exact ⟨⟨.ended, false, 0⟩, rfl, rfl, rfl⟩
  | true =>
    simp only [step, tryAcquire] at hst
    split at hst
    · cases hst
      exact ⟨⟨.refusePrepare, false, 0⟩, ⟨rfl, rfl⟩, rfl, rfl⟩
    · next active hactive =>
      cases hst
      obtain ⟨maxViewers, -, hacquire⟩ := Option.bind_eq_some_iff.mp hactive
      split at hacquire <;> cases hacquire
      exact ⟨⟨.prepare, true, 0⟩, ⟨rfl, rfl⟩, rfl, rfl⟩

theorem step_answer (hst : step registry s (.answer i a) = some t) : ∃ h p, s.handlers[i]? = some h ∧
    h.place.next a = some p ∧ t.handlers = s.handlers.set i (h.answered a p) ∧
      t.active = if h.place.releases a then release s.active else s.active := by
  obtain ⟨h, hi, hst⟩ := Option.bind_eq_some_iff.mp hst
  obtain ⟨p, hp, hst⟩ := Option.bind_eq_some_iff.mp hst
  cases hst
  exact ⟨h, p, hi, hp, rfl, rfl⟩

theorem fits_step (hs : Fits s) (hguarded : Guarded s e) (hst : step registry s e = some t) : Fits t := by
  cases e with
  | connect allowed =>
    obtain ⟨h, hh, ht, hactive⟩ := step_connect hst
    refine ⟨fun k hk => ?_, ?_⟩
    · rcases List.mem_append.mp (ht ▸ hk) with hold | hnew
      · exact hs.1 k hold
      · exact List.mem_singleton.mp hnew ▸ hh
    · calc t.active = s.handlers.countP Handler.holding + if h.holding then 1 else 0 := hs.2 ▸ hactive
        _ = t.handlers.countP Handler.holding := by rw [ht, List.countP_append, List.countP_singleton]
  | answer i a =>
    obtain ⟨h, p, hi, hp, ht, hactive⟩ := step_answer hst
    obtain ⟨hlt, hget⟩ := List.getElem?_eq_some_iff.mp hi
    have hmem : h ∈ s.handlers := List.mem_of_getElem? hi
    have hraised : a = .raised → h.place.unguarded = false := by
      rintro rfl
      exact hguarded h hi
    obtain ⟨hfits, hholding⟩ := (hs.1 h hmem).answered hp hraised
    refine ⟨fun k hk => ?_, ?_⟩
    · rcases List.mem_or_eq_of_mem_set (ht ▸ hk) with hold | rfl
      · exact hs.1 k hold
      · exact hfits
    · have hpos : h.holding = true → 0 < s.handlers.countP Handler.holding := fun hh =>
        List.countP_pos_iff.mpr ⟨h, hmem, hh⟩
      rw [ht, hactive, List.countP_set hlt, hget, hs.2]
      rcases hholding with ⟨hsame, hkept⟩ | ⟨hfree, hheld, hgiven⟩
      · rw [hsame, hkept]
        cases hh : h.holding
        · rfl
        · have := hpos hh
          simp only [Bool.false_eq_true, if_false, if_true]
          omega
      · have := hpos hheld
        simp [hfree, hheld, hgiven, release, this]

/-- A handler that has ended takes no further step, so a slot that it kept is never given back. -/
theorem leaked_step (hs : Leaked s) (hst : step registry s e = some t) : Leaked t := by
  obtain ⟨h, hmem, hh⟩ := hs
  cases e with
  | connect allowed =>
    obtain ⟨k, -, ht, -⟩ := step_connect hst
    exact ⟨h, ht ▸ List.mem_append_left [k] hmem, hh⟩
  | answer i a =>
    obtain ⟨k, p, hi, hp, ht, -⟩ := step_answer hst
    obtain ⟨j, hj⟩ := List.mem_iff_getElem?.mp hmem
    have hne : i ≠ j := by
      rintro rfl
      rw [Option.some.inj (hi.symm.trans hj), hh.2.1] at hp
      cases hp
    exact ⟨h, List.mem_iff_getElem?.mpr ⟨j, by rw [ht, List.getElem?_set_ne hne, hj]⟩, hh⟩

theorem leaked_of_not_guarded (hs : Fits s) (hguarded : ¬ Guarded s e) (hst : step registry s e = some t) :
    Leaked t := by
  match e with
  | .connect _ | .answer _ .done | .answer _ (.message _) => exact absurd trivial hguarded
  | .answer i .raised =>
    obtain ⟨h, p, hi, hp, ht, -⟩ := step_answer hst
    have hlost : h.place.unguarded = true := by
      by_contra hsafe
      refine hguarded fun k hk => ?_
      rw [← Option.some.inj (hi.symm.trans hk)]
      exact Bool.eq_false_iff.mpr hsafe
    have hfits := hs.1 h (List.mem_of_getElem? hi)
    refine ⟨h.answered .raised p, ?_, ?_⟩
    · rw [ht]
      exact List.mem_set (List.getElem?_eq_some_iff.mp hi).1 _
    · obtain ⟨place, acquired, releases⟩ := h
      cases place <;> cases hlost <;> cases hp <;> exact ⟨hfits.1, rfl, hfits.2⟩

theorem fits_nil : Fits {} := ⟨fun _ hh => absurd hh List.not_mem_nil, rfl⟩

/-- However the connections interleave and end, the slots balance exactly if nothing is raised between
taking a slot and the `try`, nor by the `stop` before `release`. -/
theorem slots_balance_iff {events : List Event} (hrun : StepRuns.run (step registry) {} events = some s) :
    Balanced s ↔ StepRuns.AllMeet (step registry) Guarded {} events := by
  constructor
  · intro hbalanced
    exact StepRuns.allMeet_of_run (fun _ _ _ => fits_step) (fun _ _ _ => leaked_of_not_guarded)
      (fun _ _ _ => leaked_step) fits_nil hrun (not_leaked_of_balanced hbalanced)
  · intro hmeet
    exact (StepRuns.inv_of_run (fun _ _ _ => fits_step) fits_nil hmeet hrun).balanced

/-- A viewer's pipeline fails to start while another viewer is turned away at the cap. -/
theorem slots_balance_failed_start :
    ∃ s, StepRuns.run (step (some 1)) {} [.connect true, .answer 0 .done, .answer 0 .done, .answer 0 .done,
        .connect true, .answer 0 .raised, .answer 1 .raised, .answer 0 .done] = some s ∧
      Balanced s ∧ StepRuns.AllMeet (step (some 1)) Guarded {} [.connect true, .answer 0 .done, .answer 0 .done,
        .answer 0 .done, .connect true, .answer 0 .raised, .answer 1 .raised, .answer 0 .done] := by
  refine ⟨⟨0, [⟨.ended, true, 1⟩, ⟨.ended, false, 0⟩]⟩, rfl, ?_⟩
  have hbalanced : Balanced ⟨0, [⟨.ended, true, 1⟩, ⟨.ended, false, 0⟩]⟩ := ⟨by decide, rfl⟩
  exact ⟨hbalanced, (slots_balance_iff rfl).mp hbalanced⟩

/-- With the cap at one, an import that fails keeps the only slot for good. -/
theorem failed_import_keeps_slot :
    ∃ s, StepRuns.run (step (some 1)) {} [.connect true, .answer 0 .done, .answer 0 .raised] = some s ∧
      s.active = 1 ∧ s.handlers.countP Handler.holding = 0 ∧ ¬ Balanced s :=
  ⟨_, rfl, rfl, rfl, fun h => absurd h.2 (by decide)⟩

end PiBuddyCam.ViewerSlots
