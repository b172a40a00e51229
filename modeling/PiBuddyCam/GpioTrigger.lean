import Mathlib.Logic.Function.Basic
import Mathlib.Data.Nat.Notation
import Mathlib.Tactic.SplitIfs
import PiBuddyCam.StepRuns

/-! The trigger of `app/gpio_trigger.py` between two configurations, with the sessions of
`app/timelapse.py` and the capture loop of `app/main.py`. Times are exact numbers. -/
namespace PiBuddyCam.Gpio

structure Pins where
  shot : ℕ
  record : Option ℕ

/-- `folders` has the number of frames of each session folder. A pulse in `queue` or `capture` is kept as
the session that was open when it was accepted, `none` being the root. The fields from `falls` on are
history: `session` is the recording that is going on, and `stored` has where each frame belongs and went. -/
structure State (Name : Type) where
  enabled : Bool := false
  recording : Bool := false
  error : String := ""
  lastShot : Option ℕ := none
  triggers : ℕ := 0
  ignored : ℕ := 0
  marker : Option Name := none
  folders : Name → Option ℕ := fun _ => none
  videos : Name → Bool := fun _ => false
  queue : List (Option Name) := []
  capture : Option (Option Name) := none
  falls : ℕ := 0
  accepted : List ℕ := []
  session : Option Name := none
  opened : List (Name × Bool) := []
  ended : List (Name × Bool) := []
  handed : List Name := []
  stored : List (Option Name × Option Name) := []

/-- What `open_session` meets: the time, how often its loop turns, and whether the folder and then the
marker can be written. -/
structure Opening where
  wall : ℕ := 0
  bumps : ℕ := 0
  made : Bool := true
  marked : Bool := true

/-- An edge; a settings change; a turn of the capture loop, whose capture succeeds or not; or a change of
the media by others, which leave the folder of the open session alone. -/
inductive Event (Name : Type) where
  | edge (offset : ℕ) (falling : Bool) (now : ℕ) (o : Opening)
  | enable (flag : Bool)
  | take
  | captured
  | failed
  | outside (folders : Name → Option ℕ) (videos : Name → Bool)

section Model

variable {Name : Type} (pins : Pins) (minGap : ℕ) (stamp : ℕ → Name)

def State.activeSession (s : State Name) : Option Name := s.marker.filter fun name => (s.folders name).isSome

def State.taken (s : State Name) (name : Name) : Bool := (s.folders name).isSome || s.videos name

def State.hasFrames (s : State Name) (name : Name) : Bool := (s.folders name).any (0 < ·)

def queueSize : ℕ := 8

def State.shot (s : State Name) (now : ℕ) : State Name :=
  if s.enabled = false then { s with ignored := s.ignored + 1 }
  else if s.lastShot.any (now < · + minGap) then { s with ignored := s.ignored + 1 }
  else
    { s with
      lastShot := some now
      triggers := s.triggers + 1
      accepted := now :: s.accepted
      -- `queue_shot` drops the pulse when the capture is behind
      queue := if s.queue.length < queueSize then s.queue ++ [s.activeSession] else s.queue }

def State.armed (s : State Name) : State Name := { s with recording := true, enabled := true }

/-- A recording that is going on stays the same one. -/
def State.noted (s t : State Name) : State Name := { t with session := s.session <|> t.activeSession }

/-- `_record_inactive`, where the marker can be removed. -/
def State.recordInactive (s : State Name) : State Name :=
  { s with
    enabled := false
    recording := false
    marker := none
    session := none
    handed := s.handed ++ (s.activeSession.filter s.hasFrames).toList
    ended := s.ended ++ (s.session.map fun name => (name, s.hasFrames name)).toList }

variable [DecidableEq Name]

/-- `open_session`, and whether it returns; no step where its loop does not end after so many turns. -/
def State.openSession (s : State Name) (o : Opening) : Option (Bool × State Name) :=
  let name := stamp (o.wall + o.bumps)
  if (∀ i < o.bumps, s.taken (stamp (o.wall + i)) = true) ∧ s.taken name = false then
    if o.made then
      some (o.marked,
        { s with
          folders := Function.update s.folders name (some 0)
          marker := if o.marked then some name else s.marker
          opened := (name, s.taken name) :: s.opened })
    else some (false, s)
  else none

def State.recordActive (s : State Name) (o : Opening) : Option (State Name) :=
  match s.activeSession with
  | some _ => some (s.noted s.armed)
  | none => (s.openSession stamp o).map fun r =>
      s.noted (if r.1 then r.2.armed else { r.2 with error := "could not create the session folder" })

def State.handleEdge (s : State Name) (offset : ℕ) (falling : Bool) (now : ℕ) (o : Opening) : Option (State Name) :=
  if offset = pins.shot ∧ falling = true then some (s.shot minGap now)
  else if pins.record = some offset then if falling then s.recordActive stamp o else some s.recordInactive
  else some s

/-- The end of a capture: `session_frame_dir` is asked now, and the frame saved there. -/
def State.store (s : State Name) (tag : Option Name) : State Name :=
  { s with
    capture := none
    stored := (tag, s.activeSession) :: s.stored
    folders := s.activeSession.elim s.folders fun name => Function.update s.folders name ((s.folders name).map (· + 1)) }

def step (s : State Name) : Event Name → Option (State Name)
  | .edge offset falling now o =>
    { s with falls := s.falls + if offset = pins.shot ∧ falling = true then 1 else 0 }.handleEdge pins minGap stamp
      offset falling now o
  | .enable flag => some { s with enabled := flag }
  | .take =>
    match s.capture, s.queue with
    | none, tag :: queue => some { s with queue := queue, capture := if s.enabled then some tag else none }
    | _, _ => none
  | .captured => s.capture.map s.store
  | .failed => s.capture.map fun _ => { s with capture := none }
  | .outside folders videos =>
    let t := { s with folders := folders, videos := videos }
    if t.activeSession = s.activeSession then some t else none

end Model

section Edges

variable {Name : Type} {pins : Pins} {minGap base : ℕ} {stamp : ℕ → Name} {s t : State Name}

/-- Shots are spaced and counted, sessions are opened under free names, and the recordings that ended
with a frame are the ones that were handed over. -/
structure Sound (minGap base : ℕ) (s : State Name) : Prop where
  spaced : s.accepted.Pairwise fun later earlier => earlier + minGap ≤ later
  counted : s.triggers + s.ignored = base + s.falls
  opened : ∀ x ∈ s.opened, x.2 = false
  handed : s.handed = (s.ended.filter (·.2)).map (·.1)

structure Inv (minGap base : ℕ) (s : State Name) : Prop extends Sound minGap base s where
  last : s.lastShot = s.accepted.head?
  session : s.session = s.activeSession

theorem Inv.shot (h : Inv minGap base s) (now : ℕ) :
    Inv minGap base ({ s with falls := s.falls + 1 }.shot minGap now) := by
  have hcounted := h.counted
  rw [State.shot]
  split
  · exact ⟨⟨h.spaced, by simp only; omega, h.opened, h.handed⟩, h.last, h.session⟩
  split
  · exact ⟨⟨h.spaced, by simp only; omega, h.opened, h.handed⟩, h.last, h.session⟩
  · next hgap =>
    refine ⟨⟨List.pairwise_cons.mpr ⟨fun earlier hmem => ?_, h.spaced⟩, by simp only; omega, h.opened, h.handed⟩, rfl,
      h.session⟩
    -- the last shot is the latest of the accepted ones
    have hlast := h.last
    have hspaced := h.spaced
    cases haccepted : s.accepted with
    | nil => simp [haccepted] at hmem
    | cons last rest =>
      rw [haccepted] at hlast hmem hspaced
      have hnow : last + minGap ≤ now := by simpa [hlast] using hgap
      obtain rfl | hrest := List.mem_cons.mp hmem
      · exact hnow
      · have := (List.pairwise_cons.mp hspaced).1 earlier hrest
        omega

theorem Inv.recordInactive (h : Inv minGap base s) : Inv minGap base s.recordInactive := by
  refine ⟨⟨h.spaced, h.counted, h.opened, ?_⟩, h.last, rfl⟩
  simp only [State.recordInactive, h.session, h.handed, List.filter_append, List.map_append]
  cases s.activeSession with
  | none => rfl
  | some name => cases hframes : s.hasFrames name <;> simp [Option.filter, hframes]

variable [DecidableEq Name]

theorem openSession_cases {o : Opening} {ok : Bool} (h : s.openSession stamp o = some (ok, t)) :
    t = s ∨ ∃ name marker, s.taken name = false ∧ t = { s with
      folders := Function.update s.folders name (some 0), marker := marker, opened := (name, false) :: s.opened } := by
  simp only [State.openSession] at h
  split at h
  · next hfree =>
    cases hmade : o.made <;> simp only [hmade] at h <;> obtain ⟨-, rfl⟩ := Prod.mk.inj (Option.some.inj h)
    · exact Or.inl rfl
    · exact Or.inr ⟨_, _, hfree.2, by rw [hfree.2]⟩
  · exact absurd h (by simp)

theorem activeSession_store (tag : Option Name) : (s.store tag).activeSession = s.activeSession := by
  have hsome (name : Name) : ((s.store tag).folders name).isSome = (s.folders name).isSome := by
    simp only [State.store]
    cases s.activeSession with
    | none => rfl
    | some active =>
      simp only [Option.elim_some, Function.update_apply]
      split_ifs with hname
      · rw [hname, Option.isSome_map]
      · rfl
  exact congrArg (Option.filter · s.marker) (funext hsome)

theorem Inv.recordActive (h : Inv minGap base s) {o : Opening} (hstep : s.recordActive stamp o = some t) :
    Inv minGap base t := by
  unfold State.recordActive at hstep
  split at hstep
  · next name hactive =>
    obtain rfl := Option.some.inj hstep
    refine ⟨⟨h.spaced, h.counted, h.opened, h.handed⟩, h.last, ?_⟩
    have hsession : s.session = some name := h.session.trans hactive
    change (s.session <|> _) = s.activeSession
    rw [hsession, hactive]
    rfl
  · next hactive =>
    obtain ⟨⟨ok, u⟩, hopen, rfl⟩ := Option.map_eq_some_iff.mp hstep
    have hnone : s.session = none := h.session.trans hactive
    have hnoted (v : State Name) (hv : Inv minGap base { v with session := v.activeSession }) :
        Inv minGap base (s.noted v) := by
      rw [State.noted, hnone]
      exact hv
    refine hnoted _ ?_
    obtain rfl | ⟨name, marker, -, rfl⟩ := openSession_cases hopen
    · cases ok <;> exact ⟨⟨h.spaced, h.counted, h.opened, h.handed⟩, h.last, rfl⟩
    · have hopened : ∀ x ∈ (name, false) :: s.opened, x.2 = false := List.forall_mem_cons.mpr ⟨rfl, h.opened⟩
      cases ok <;> exact ⟨⟨h.spaced, h.counted, hopened, h.handed⟩, h.last, rfl⟩

theorem inv_step (s : State Name) (e : Event Name) (t : State Name) (h : Inv minGap base s)
    (hstep : step pins minGap stamp s e = some t) : Inv minGap base t := by
  cases e with
  | edge offset falling now o =>
    rw [step, State.handleEdge] at hstep
    split_ifs at hstep
    · exact Option.some.inj hstep ▸ h.shot now
    · exact h.recordActive hstep
    · exact Option.some.inj hstep ▸ h.recordInactive
    · exact Option.some.inj hstep ▸ h
  | enable flag => exact Option.some.inj hstep ▸ ⟨⟨h.spaced, h.counted, h.opened, h.handed⟩, h.last, h.session⟩
  | take =>
    simp only [step] at hstep
    split at hstep
    · exact Option.some.inj hstep ▸ ⟨⟨h.spaced, h.counted, h.opened, h.handed⟩, h.last, h.session⟩
    · exact absurd hstep (by simp)
  | captured =>
    obtain ⟨tag, -, rfl⟩ := Option.map_eq_some_iff.mp hstep
    exact ⟨⟨h.spaced, h.counted, h.opened, h.handed⟩, h.last, h.session.trans (activeSession_store tag).symm⟩
  | failed =>
    obtain ⟨tag, -, rfl⟩ := Option.map_eq_some_iff.mp hstep
    exact ⟨⟨h.spaced, h.counted, h.opened, h.handed⟩, h.last, h.session⟩
  | outside folders videos =>
    simp only [step] at hstep
    split_ifs at hstep with hsame
    exact Option.some.inj hstep ▸ ⟨⟨h.spaced, h.counted, h.opened, h.handed⟩, h.last, h.session.trans hsame.symm⟩

/-- What a configuration leaves: no shot yet, and the recording that the marker names. -/
structure Configured (s : State Name) : Prop where
  lastShot : s.lastShot = none
  accepted : s.accepted = []
  falls : s.falls = 0
  session : s.session = s.activeSession
  opened : s.opened = []
  ended : s.ended = []
  handed : s.handed = []

theorem edges_sound {start : State Name} {events : List (Event Name)} (hstart : Configured start)
    (hrun : StepRuns.run (step pins minGap stamp) start events = some s) :
    Sound minGap (start.triggers + start.ignored) s := by
  have hinv : Inv minGap (start.triggers + start.ignored) start := by
    refine ⟨⟨?_, ?_, ?_, ?_⟩, ?_, hstart.session⟩
    · simp [hstart.accepted]
    · rw [hstart.falls, Nat.add_zero]
    · simp [hstart.opened]
    · simp [hstart.handed, hstart.ended]
    · rw [hstart.lastShot, hstart.accepted, List.head?_nil]
  exact (StepRuns.inv_of_steps inv_step hinv hrun).toSound

end Edges

section Samples

def samplePins : Pins := ⟨1, some 2⟩

def onShot (now : ℕ) : Event ℕ := .edge 1 true now {}

def onRecord (wall : ℕ) : Event ℕ := .edge 2 true wall { wall := wall }

def offRecord : Event ℕ := .edge 2 false 0 {}

/-- A recording with a frame, and a pulse that comes too early. -/
theorem one_recording_sound : ∃ s,
    StepRuns.run (step samplePins 10 id) {} [onRecord 0, onShot 1, .take, .captured, onShot 2, offRecord] = some s ∧
      Sound 10 0 s := by
  have hrun : StepRuns.run (step samplePins 10 id) {}
    [onRecord 0, onShot 1, .take, .captured, onShot 2, offRecord] = some _ := rfl
  exact ⟨_, hrun, edges_sound ⟨rfl, rfl, rfl, rfl, rfl, rfl, rfl⟩ hrun⟩

end Samples

section Frames

variable {Name : Type} {pins : Pins} {minGap : ℕ} {stamp : ℕ → Name} {s t : State Name}

/-- A recording starts or stops only while no accepted pulse is waited for. -/
def Settled (pins : Pins) (s : State Name) : Event Name → Prop
  | .edge offset _ _ _ => pins.record = some offset → s.queue = [] ∧ s.capture = none
  | _ => True

/-- The pulses that wait belong to the session that is open, and each frame is where it belongs. -/
structure Placed (s : State Name) : Prop where
  queue : ∀ tag ∈ s.queue, tag = s.activeSession
  capture : ∀ tag, s.capture = some tag → tag = s.activeSession
  stored : ∀ x ∈ s.stored, x.1 = x.2

theorem Placed.shot (h : Placed s) (now : ℕ) : Placed (s.shot minGap now) := by
  rw [State.shot]
  split
  · exact ⟨h.queue, h.capture, h.stored⟩
  split
  · exact ⟨h.queue, h.capture, h.stored⟩
  refine ⟨fun tag htag => ?_, h.capture, h.stored⟩
  simp only at htag
  split_ifs at htag
  · obtain hold | hnew := List.mem_append.mp htag
    · exact h.queue tag hold
    · exact List.mem_singleton.mp hnew
  · exact h.queue tag htag

theorem Placed.of_idle (h : Placed s) (hidle : s.queue = [] ∧ s.capture = none)
    (hframe : t.queue = s.queue ∧ t.capture = s.capture ∧ t.stored = s.stored) : Placed t := by
  refine ⟨fun tag htag => ?_, fun tag htag => ?_, hframe.2.2 ▸ h.stored⟩
  · simp [hframe.1, hidle.1] at htag
  · simp [hframe.2.1, hidle.2] at htag

variable [DecidableEq Name]

theorem recordActive_frame {o : Opening} (hstep : s.recordActive stamp o = some t) :
    t.queue = s.queue ∧ t.capture = s.capture ∧ t.stored = s.stored := by
  unfold State.recordActive at hstep
  split at hstep
  · obtain rfl := Option.some.inj hstep
    exact ⟨rfl, rfl, rfl⟩
  · obtain ⟨⟨ok, u⟩, hopen, rfl⟩ := Option.map_eq_some_iff.mp hstep
    obtain rfl | ⟨name, marker, -, rfl⟩ := openSession_cases hopen <;> cases ok <;> exact ⟨rfl, rfl, rfl⟩

theorem placed_step (s : State Name) (e : Event Name) (t : State Name) (h : Placed s) (hsettled : Settled pins s e)
    (hstep : step pins minGap stamp s e = some t) : Placed t := by
  cases e with
  | edge offset falling now o =>
    have hold (n : ℕ) : Placed { s with falls := n } := ⟨h.queue, h.capture, h.stored⟩
    rw [step, State.handleEdge] at hstep
    split_ifs at hstep with hshot hrecord hfalling
    · exact Option.some.inj hstep ▸ (hold _).shot now
    · exact (hold _).of_idle (hsettled hrecord) (recordActive_frame hstep)
    · exact Option.some.inj hstep ▸ h.of_idle (hsettled hrecord) ⟨rfl, rfl, rfl⟩
    · exact Option.some.inj hstep ▸ hold _
  | enable flag => exact Option.some.inj hstep ▸ ⟨h.queue, h.capture, h.stored⟩
  | take =>
    simp only [step] at hstep
    split at hstep
    · next tag queue hcapture hqueue =>
      obtain rfl := Option.some.inj hstep
      have hwaiting := h.queue
      rw [hqueue] at hwaiting
      refine ⟨fun other hother => hwaiting other (List.mem_cons_of_mem _ hother), fun other hother => ?_, h.stored⟩
      simp only at hother
      split_ifs at hother
      exact Option.some.inj hother ▸ hwaiting tag List.mem_cons_self
    · exact absurd hstep (by simp)
  | captured =>
    obtain ⟨tag, htag, rfl⟩ := Option.map_eq_some_iff.mp hstep
    refine ⟨fun other hother => ?_, fun other hother => absurd hother (by simp [State.store]), ?_⟩
    · exact (h.queue other hother).trans (activeSession_store tag).symm
    · exact List.forall_mem_cons.mpr ⟨h.capture tag htag, h.stored⟩
  | failed =>
    obtain ⟨tag, -, rfl⟩ := Option.map_eq_some_iff.mp hstep
    exact ⟨h.queue, fun other hother => absurd hother (by simp), h.stored⟩
  | outside folders videos =>
    simp only [step] at hstep
    split_ifs at hstep with hsame
    exact Option.some.inj hstep ▸ ⟨fun tag htag => (h.queue tag htag).trans hsame.symm,
      fun tag htag => (h.capture tag htag).trans hsame.symm, h.stored⟩

/-- Each frame goes into the folder of the session in which its pulse was accepted, from any state in which
nothing is waited for. -/
theorem frames_stored_in_session {start : State Name} {events : List (Event Name)}
    (hidle : start.queue = [] ∧ start.capture = none) (hstored : start.stored = [])
    (hsettled : StepRuns.AllMeet (step pins minGap stamp) (Settled pins) start events)
    (hrun : StepRuns.run (step pins minGap stamp) start events = some s) : ∀ x ∈ s.stored, x.1 = x.2 := by
  have hinit : Placed start := ⟨by simp [hidle.1], by simp [hidle.2], by simp [hstored]⟩
  exact (StepRuns.inv_of_run placed_step hinit hsettled hrun).stored

/-- The capture ends in the next recording. -/
theorem frame_in_next_session : ∃ s,
    StepRuns.run (step samplePins 10 id) {} [onRecord 0, onShot 1, .take, offRecord, onRecord 1, .captured] = some s ∧
      ∃ x ∈ s.stored, x.1 ≠ x.2 :=
  ⟨_, rfl, (some 0, some 1), List.mem_cons_self, by decide⟩

theorem frame_in_own_session : ∃ s,
    StepRuns.run (step samplePins 10 id) {} [onRecord 0, onShot 1, .take, .captured] = some s ∧
      ∀ x ∈ s.stored, x.1 = x.2 := by
  have hrun : StepRuns.run (step samplePins 10 id) {} [onRecord 0, onShot 1, .take, .captured] = some _ := rfl
  refine ⟨_, hrun, frames_stored_in_session ⟨rfl, rfl⟩ rfl ?_ hrun⟩
  -- only the first edge is one of the recording line
  exact ⟨fun _ => ⟨rfl, rfl⟩, fun _ _ => ⟨fun hpin => absurd hpin (by decide), fun _ _ => ⟨trivial, fun _ _ =>
    ⟨trivial, fun _ _ => trivial⟩⟩⟩⟩

end Frames

end PiBuddyCam.Gpio
