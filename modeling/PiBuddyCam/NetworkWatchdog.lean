import Mathlib.Algebra.Order.Ring.Rat
import PiBuddyCam.NetworkModel
import PiBuddyCam.StepRuns

/-! `network_watchdog.py`: every minute a tick looks at the station link, and after too long a time without one it
starts the setup hotspot. What it counts from is kept in a file. -/
namespace PiBuddyCam.Network.Watchdog

def retryMinutes : ℤ := 10

inductive Outcome where
  | disabled | unclaimed | busy | healthy | waiting | hotspotStarted | hotspotHeld | recovered | recoveryFailed
  deriving DecidableEq

/-- What a tick finds, and what its calls come to. -/
structure Found where
  now : Time
  profile : Bool := true
  /-- The state of the last network change, as `read_result` gives it. -/
  current : Option ResultState := none
  loads : Bool := true
  saves : Bool := true
  ready : Bool := false
  /-- What `start_hotspot` returns; `false` if it raises. -/
  started : Bool := true
  /-- The clock at a retry of the station, and whether the link comes up. -/
  retryNow : Time := now
  recovers : Bool := false

def loadState (f : Found) (file : Watch) : Watch := if f.loads then file else {}

def saveState (f : Found) (file state : Watch) : Watch := if f.saves then state else file

def retryStation (f : Found) (file state : Watch) : Outcome × Watch :=
  if f.recovers then (.recovered, saveState f file {})
  else (.recoveryFailed, saveState f file { state with lastRetry := some f.retryNow })

/-- One pass, with the file that it finds; the outcome, and the file that it leaves. -/
def tick (minutes : ℤ) (file : Watch) (f : Found) : Outcome × Watch :=
  if minutes ≤ 0 then (.disabled, file)
  else if f.profile = false then (.unclaimed, file)
  else if f.current = some .applying then (.busy, file)
  else
    let state := loadState f file
    if state.hotspot then
      if f.now - state.lastRetry.getD f.now < retryMinutes * 60 then (.hotspotHeld, file)
      else retryStation f file state
    else if f.ready then (.healthy, if state = {} then file else saveState f file {})
    else
      match state.downSince.filter (· ≤ f.now) with
      | none => (.waiting, saveState f file { downSince := some f.now })
      | some downSince =>
        if f.now - downSince < minutes * 60 then (.waiting, file)
        else if f.started then
          (.hotspotStarted, saveState f file { hotspot := true, lastRetry := some f.now, since := some downSince })
        else (.waiting, file)

def Outcome.Usable : Outcome → Prop
  | .healthy | .recovered => True
  | _ => False

def Outcome.Starts : Outcome → Prop
  | .hotspotStarted | .recoveryFailed => True
  | _ => False

/-- A tick at the time `since`, and no tick from that one on that found the link usable. -/
def Outage (since : Time) : List (Found × Outcome) → Prop
  | [] => False
  | (f, out) :: earlier => ¬ out.Usable ∧ (f.now = since ∨ Outage since earlier)

/-- The file, and the ticks so far, the latest first. -/
structure System where
  file : Watch := {}
  past : List (Found × Outcome) := []

def System.add (s : System) (f : Found) (r : Outcome × Watch) : System := ⟨r.2, (f, r.1) :: s.past⟩

variable {minutes : ℤ} {s : System} {f : Found}

def step (minutes : ℤ) (s : System) (f : Found) : Option System := some (s.add f (tick minutes s.file f))

/-- Each tick that started the hotspot came the set time after one from which on the link was down. -/
def Sound (minutes : ℤ) : List (Found × Outcome) → Prop
  | [] => True
  | (f, out) :: earlier =>
    (out.Starts → ∃ since, Outage since earlier ∧ minutes * 60 ≤ f.now - since) ∧ Sound minutes earlier

structure Inv (minutes : ℤ) (s : System) : Prop where
  down : ∀ since, s.file.downSince = some since → Outage since s.past
  hotspot : s.file.hotspot = true → ∃ since, Outage since s.past ∧ ∃ x ∈ s.past, minutes * 60 ≤ x.1.now - since
  sound : Sound minutes s.past

/-- The file is written, the clock does not go back, and a tick that finds the link healthy can read the file. -/
def Meets (minutes : ℤ) (s : System) (f : Found) : Prop :=
  f.saves = true ∧ (∀ x ∈ s.past, x.1.now ≤ f.now) ∧ ((tick minutes s.file f).1 = .healthy → f.loads = true)

theorem inv_step (s : System) (f : Found) (t : System) (h : Inv minutes s) (hmeets : Meets minutes s f)
    (hstep : step minutes s f = some t) : Inv minutes t := by
  obtain ⟨hsaves, htime, hloads⟩ := hmeets
  obtain rfl := Option.some.inj hstep
  have hsave (state : Watch) : saveState f s.file state = state := if_pos hsaves
  have hlater {out : Outcome} (hout : ¬ out.Usable) {since : Time} (hsince : Outage since s.past) :
      Outage since ((f, out) :: s.past) := ⟨hout, Or.inr hsince⟩
  have hheld {out : Outcome} (hout : ¬ out.Usable) (hs : s.file.hotspot = true) :
      ∃ since, Outage since ((f, out) :: s.past) ∧ ∃ x ∈ (f, out) :: s.past, minutes * 60 ≤ x.1.now - since := by
    obtain ⟨since, hsince, x, hx, hlong⟩ := h.hotspot hs
    exact ⟨since, hlater hout hsince, x, List.mem_cons_of_mem _ hx, hlong⟩
  have hidle {out : Outcome} (hout : ¬ out.Usable) (hstart : ¬ out.Starts) : Inv minutes (s.add f (out, s.file)) :=
    ⟨fun since hs => hlater hout (h.down since hs), hheld hout, fun hs => absurd hs hstart, h.sound⟩
  have hclear {out : Outcome} (hstart : ¬ out.Starts) : Inv minutes (s.add f (out, {})) :=
    ⟨nofun, nofun, fun hs => absurd hs hstart, h.sound⟩
  have hcount : Inv minutes (s.add f (.waiting, { downSince := some f.now })) :=
    ⟨fun since hs => ⟨id, Or.inl (Option.some.inj hs)⟩, nofun, nofun, h.sound⟩
  generalize hr : tick minutes s.file f = r at hloads ⊢
  simp only [tick, retryStation, hsave] at hr
  split at hr
  · exact hr ▸ hidle id id
  split at hr
  · exact hr ▸ hidle id id
  split at hr
  · exact hr ▸ hidle id id
  cases hread : f.loads with
  | false =>
    -- the empty state: nothing is counted
    simp only [loadState, hread, Bool.false_eq_true, if_false, Option.filter_none, if_true] at hr
    split at hr
    · rw [← hr] at hloads
      exact absurd (hloads rfl) (Bool.eq_false_iff.mp hread)
    · exact hr ▸ hcount
  | true =>
    simp only [loadState, hread, if_true] at hr
    split at hr
    · rename_i hhotspot
      split at hr
      · exact hr ▸ hidle id id
      split at hr
      · exact hr ▸ hclear id
      · obtain ⟨since, hsince, x, hx, hlong⟩ := h.hotspot hhotspot
        have hlong := hlong.trans (sub_le_sub_right (htime x hx) since)
        exact hr ▸ ⟨fun since hs => hlater id (h.down since hs), fun _ => hheld id hhotspot,
          fun _ => ⟨since, hsince, hlong⟩, h.sound⟩
    split at hr
    · split at hr
      · rename_i hempty
        exact hr ▸ hempty ▸ hclear id
      · exact hr ▸ hclear id
    split at hr
    · exact hr ▸ hcount
    rename_i downSince hdown
    split at hr
    · exact hr ▸ hidle id id
    rename_i hlong
    split at hr
    · have hsince := h.down _ (Option.filter_eq_some_iff.mp hdown).1
      have hlong := not_lt.mp hlong
      exact hr ▸ ⟨nofun, fun _ => ⟨_, hlater id hsince, (f, _), List.mem_cons_self, hlong⟩, fun _ => ⟨_, hsince, hlong⟩,
        h.sound⟩
    · exact hr ▸ hidle id id

/-- In every sequence of such ticks the hotspot is started only after an outage of the set number of minutes. -/
theorem hotspot_after_outage {ticks : List Found} (hmeet : StepRuns.AllMeet (step minutes) (Meets minutes) {} ticks)
    (hrun : StepRuns.run (step minutes) {} ticks = some s) : Sound minutes s.past := by
  have hstart : Inv minutes {} := ⟨nofun, nofun, trivial⟩
  exact (StepRuns.inv_of_run inv_step hstart hmeet hrun).sound

theorem outage_starts_hotspot : ∃ s, StepRuns.run (step 10) {} [{ now := 0 }, { now := 600 }] = some s ∧
    s.past.map Prod.snd = [.hotspotStarted, .waiting] ∧ Sound 10 s.past := by
  have hmeet : StepRuns.AllMeet (step 10) (Meets 10) {} [{ now := 0 }, { now := 600 }] := by
    refine ⟨⟨rfl, List.forall_mem_nil _, fun _ => rfl⟩, fun t ht => ?_⟩
    obtain rfl := Option.some.inj ht
    exact ⟨⟨rfl, List.forall_mem_singleton.mpr (by decide +kernel), fun _ => rfl⟩, fun _ _ => trivial⟩
  exact ⟨_, rfl, by decide +kernel, hotspot_after_outage hmeet rfl⟩

/-- The link is found down, then healthy by a tick that cannot read the file, and a minute later down again. -/
theorem unread_count_starts_hotspot : ∃ s,
    StepRuns.run (step 10) {} [{ now := 0 }, { now := 540, ready := true, loads := false }, { now := 600 }] = some s ∧
      s.past.map Prod.snd = [.hotspotStarted, .healthy, .waiting] ∧ ¬ Sound 10 s.past := by
  refine ⟨_, rfl, by decide +kernel, fun h => ?_⟩
  have hstarts {out : Outcome} (hout : out = .hotspotStarted) : out.Starts := hout ▸ trivial
  have husable {out : Outcome} (hout : out = .healthy) : out.Usable := hout ▸ trivial
  obtain ⟨_, hdown, -⟩ := h.1 (hstarts (by decide +kernel))
  exact hdown.1 (husable (by decide +kernel))

end PiBuddyCam.Network.Watchdog
