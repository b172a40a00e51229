import Mathlib.Data.List.Basic
import PiBuddyCam.StepRuns

/-! `webrtc.py`: the request id, one field of `PrusaWebRTC`, while `create_offer` replaces a media
pipeline by the next one and the callbacks of both send under that field. -/
namespace PiBuddyCam.WebrtcRequests

/-- Where a `create_offer` call is: it has set the id, torn the old pipeline down, built the new one. -/
inductive Phase (ρ : Type) where
  | idle
  | entered (id : ρ)
  | torn (id : ρ)
  | built (id : ρ)

structure Peer (ρ : Type) where
  requestId : Option ρ := none
  /-- The pipeline in place, by its place in `builders`. -/
  webrtc : Option ℕ := none
  offerStarted : Bool := false
  phase : Phase ρ := .idle
  /-- The ids of the `create_offer` calls that built the pipelines so far. -/
  builders : List ρ := []
  /-- The pipelines that owe an offer. -/
  offering : List ℕ := []
  /-- The offers and candidates sent, by the pipeline they came from and the id they were sent under. -/
  sent : List (ℕ × Option ρ) := []

/-- `create_offer` and `handle_answer` run on one thread; the callbacks come at any point between. -/
inductive Event (ρ : Type) where
  | createOffer (id : ρ)
  | teardown
  | build
  | connect
  | fail
  | handleAnswer (id : ρ)
  /-- `_create_offer`, from the signal of any pipeline or from the timeout. -/
  | negotiate
  | offerCreated (pipeline : ℕ) (hasOffer : Bool)
  | iceCandidate (pipeline : ℕ)

variable {ρ : Type}

def Peer.send (s : Peer ρ) (pipeline : ℕ) : Peer ρ := { s with sent := s.sent ++ [(pipeline, s.requestId)] }

def step (s : Peer ρ) : Event ρ → Option (Peer ρ)
  | .createOffer id =>
    match s.phase with
    | .idle => some { s with requestId := some id, phase := .entered id }
    | _ => none
  | .teardown =>
    match s.phase with
    | .idle => some { s with webrtc := none }
    | .entered id => some { s with webrtc := none, phase := .torn id }
    | _ => none
  | .build =>
    match s.phase with
    | .torn id =>
      some { s with webrtc := some s.builders.length, builders := s.builders ++ [id], phase := .built id }
    | _ => none
  | .connect =>
    match s.phase with
    | .built _ => some { s with offerStarted := false, phase := .idle }
    | _ => none
  | .fail =>
    match s.phase with
    | .torn _ | .built _ => some { s with phase := .idle }
    | _ => none
  | .handleAnswer id =>
    match s.phase with
    | .idle => some { s with requestId := some id }
    | _ => none
  | .negotiate =>
    match s.webrtc with
    | none => some s
    | some k => some (if s.offerStarted then s else { s with offerStarted := true, offering := k :: s.offering })
  | .offerCreated k hasOffer =>
    if k ∈ s.offering then
      let s := { s with offering := s.offering.erase k }
      -- with no pipeline in place the callback raises before it sends
      some (if hasOffer && s.webrtc.isSome then s.send k else s)
    else none
  | .iceCandidate k => if k < s.builders.length then some (s.send k) else none

/-- The message went out under the id of the call that built its pipeline. -/
def Peer.Right (s : Peer ρ) (m : ℕ × Option ρ) : Prop := ∃ id, s.builders[m.1]? = some id ∧ m.2 = some id

/-- A callback is one of the pipeline in place, outside every `create_offer`, and an answer carries the
id of the call that built the pipeline in place. -/
def Orderly (s : Peer ρ) : Event ρ → Prop
  | .handleAnswer id => ∀ k, s.webrtc = some k → s.builders[k]? = some id
  | .offerCreated k _ | .iceCandidate k => s.phase = .idle ∧ s.webrtc = some k
  | _ => True

/-- What the phase says about the field. -/
def Peer.Tracked (s : Peer ρ) : Prop :=
  match s.phase with
  | .idle => ∀ k, s.webrtc = some k → s.Right (k, s.requestId)
  | .entered id => s.requestId = some id
  | .torn id => s.requestId = some id ∧ s.webrtc = none
  | .built id => s.requestId = some id ∧ ∀ k, s.webrtc = some k → s.builders[k]? = some id

structure Inv (s : Peer ρ) : Prop where
  tracked : s.Tracked
  sent : ∀ m ∈ s.sent, s.Right m

variable {s t : Peer ρ}

theorem Inv.send {k : ℕ} (h : Inv s) (hk : s.Right (k, s.requestId)) : Inv (s.send k) := by
  refine ⟨h.tracked, fun m hm => ?_⟩
  rcases List.mem_append.mp hm with hold | hnew
  · exact h.sent m hold
  · rw [List.mem_singleton.mp hnew]
    exact hk

theorem inv_step (s : Peer ρ) (e : Event ρ) (t : Peer ρ) (h : Inv s) (he : Orderly s e) (hst : step s e = some t) :
    Inv t := by
  obtain ⟨requestId, webrtc, offerStarted, phase, builders, offering, sent⟩ := s
  obtain ⟨htracked, hsent⟩ := h
  cases e with
  | createOffer id =>
    cases phase <;> cases hst
    exact ⟨rfl, hsent⟩
  | teardown =>
    cases phase <;> cases hst
    · exact ⟨nofun, hsent⟩
    · exact ⟨⟨htracked, rfl⟩, hsent⟩
  | build =>
    cases phase <;> cases hst
    refine ⟨⟨htracked.1, ?_⟩, fun m hm => ?_⟩
    · intro k hk
      obtain rfl := Option.some.inj hk
      exact List.getElem?_concat_length
    · obtain ⟨id, hbuilder, hid⟩ := hsent m hm
      exact ⟨id, (List.getElem?_append_left (List.getElem?_eq_some_iff.mp hbuilder).1).trans hbuilder, hid⟩
  | connect =>
    cases phase <;> cases hst
    exact ⟨fun k hk => ⟨_, htracked.2 k hk, htracked.1⟩, hsent⟩
  | fail =>
    cases phase <;> cases hst
    · exact ⟨fun k hk => absurd (htracked.2.symm.trans hk) nofun, hsent⟩
    · exact ⟨fun k hk => ⟨_, htracked.2 k hk, htracked.1⟩, hsent⟩
  | handleAnswer id =>
    cases phase <;> cases hst
    exact ⟨fun k hk => ⟨id, he k hk, rfl⟩, hsent⟩
  | negotiate =>
    cases webrtc with
    | none =>
      cases hst
      exact ⟨htracked, hsent⟩
    | some k => 
      cases offerStarted <;> cases hst <;> exact ⟨htracked, hsent⟩
  | offerCreated k hasOffer =>
    obtain ⟨rfl, rfl⟩ := he
    rw [step] at hst
    split_ifs at hst with hmem
    have hidle : Inv (Peer.mk requestId (some k) offerStarted .idle builders (offering.erase k) sent) :=
      ⟨htracked, hsent⟩
    cases hasOffer with
    | false => exact Option.some.inj hst ▸ hidle
    | true => exact Option.some.inj hst ▸ hidle.send (htracked k rfl)
  | iceCandidate k =>
    obtain ⟨rfl, rfl⟩ := he
    rw [step] at hst
    split_ifs at hst
    exact Option.some.inj hst ▸ Inv.send ⟨htracked, hsent⟩ (htracked k rfl)

/-- In a run where no callback of a replaced pipeline comes in and every answer carries the id of the
call that built the pipeline in place, each offer and candidate is sent under the right id. -/
theorem sent_under_builder {events : List (Event ρ)} {s : Peer ρ} (hrun : StepRuns.run step {} events = some s)
    (hmeet : StepRuns.AllMeet step Orderly {} events) : ∀ m ∈ s.sent, s.Right m := by
  have hinit : Inv ({} : Peer ρ) := ⟨nofun, by simp⟩
  exact (StepRuns.inv_of_run inv_step hinit hmeet hrun).sent

/-- One viewer after another: the first pipeline makes an offer, and is answered. -/
def oneViewer : List (Event ℕ) :=
  [.createOffer 1, .teardown, .build, .connect, .negotiate, .offerCreated 0 true, .handleAnswer 1, .iceCandidate 0]

theorem oneViewer_sent : ∃ s, StepRuns.run step {} oneViewer = some s ∧ ∀ m ∈ s.sent, s.Right m := by
  have hrun : StepRuns.run step {} oneViewer = some _ := rfl
  refine ⟨_, hrun, sent_under_builder hrun ?_⟩
  simp [StepRuns.AllMeet, oneViewer, Orderly, step, Peer.send]

/-- The second `create_offer` has set its id when the first pipeline finds a candidate; and an answer
changes the id of the candidates that follow. -/
theorem late_callback_and_answer_change_id :
    (∃ s, StepRuns.run step {} [.createOffer 1, .teardown, .build, .connect, .createOffer 2, .iceCandidate 0] =
        some s ∧ ¬ ∀ m ∈ s.sent, s.Right m) ∧
      ∃ s, StepRuns.run step {} [.createOffer 1, .teardown, .build, .connect, .handleAnswer 2, .iceCandidate 0] =
        some s ∧ ¬ ∀ m ∈ s.sent, s.Right m := by
  constructor
  all_goals
    refine ⟨_, rfl, ?_⟩
    simp [Peer.send, Peer.Right]

end PiBuddyCam.WebrtcRequests
