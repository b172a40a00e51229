import Mathlib.Tactic.Linarith
import PiBuddyCam.ProtoModel

/-! `trigger` frames: `app/trigger.py`, and the guard of `app/device_control.py` before the reboot one may ask for. -/
namespace PiBuddyCam.Trigger

open Proto

inductive Action where
  | status | features | protocolInfo | snapshot | snapshotEnable | snapshotDisable | rtspStart | rtspStop
  | timelapseEnable | timelapseDisable | fwUpdate | reboot | timelapseMake | timelapseFileList
  deriving DecidableEq

def actionByFieldValue : List ((ℤ × ℤ) × Action) :=
  [((1, 1), .status), ((2, 1), .features), ((3, 1), .snapshot), ((4, 1), .snapshotEnable), ((4, 2), .snapshotDisable),
   ((5, 1), .timelapseEnable), ((5, 2), .timelapseDisable), ((8, 1), .fwUpdate), ((9, 1), .reboot),
   ((10, 1), .rtspStart), ((10, 2), .rtspStop), ((12, 1), .protocolInfo), ((14, 1), .timelapseMake),
   ((15, 1), .timelapseFileList)]

/-- Of what `decode_message` returns, only an int can be in the table. -/
def actionOf (tag : ℤ) : Value → Option Action
  | .int n => actionByFieldValue.lookup (tag, n)
  | _ => none

def decodeTrigger (data : Bytes) : OrderedDict ℤ Value := decodeMessage data

def triggerActions (fields : OrderedDict ℤ Value) : List Action :=
  (sortedItems fields).filterMap fun e => actionOf e.1 e.2

def canReboot (last : Option ℚ) (now minInterval : ℚ) : Bool :=
  match last with
  | none => true
  | some last => if now < last then false else minInterval ≤ now - last

/-- `commands` is when `systemctl reboot` was run, whether or not it succeeded. -/
structure Device where
  lastReboot : Option ℚ := none
  commands : List ℚ := []

def requestReboot (d : Device) (now : ℚ) : Device :=
  if canReboot d.lastReboot now 60 then ⟨some now, d.commands ++ [now]⟩ else d

/-- No other action has to do with the guard. -/
def dispatch (now : ℚ) (d : Device) : Action → Device
  | .reboot => requestReboot d now
  | _ => d

structure Frame where
  data : Bytes
  now : ℚ

def handle (d : Device) (f : Frame) : Device := (triggerActions (decodeTrigger f.data)).foldl (dispatch f.now) d

theorem canReboot_some (last now : ℚ) : canReboot (some last) now 60 = true ↔ last + 60 ≤ now := by
  simp only [canReboot]
  split_ifs <;> grind

theorem foldl_dispatch (plan : List Action) (d : Device) (now : ℚ) :
    plan.foldl (dispatch now) d = if .reboot ∈ plan then requestReboot d now else d := by
  induction plan generalizing d with
  | nil => rfl
  | cons a plan ih =>
    rw [List.foldl_cons, ih]
    cases a with
    | reboot =>
      -- a second request at the same time is refused
      have htwice : requestReboot (requestReboot d now) now = requestReboot d now := by
        by_cases h : canReboot d.lastReboot now 60 <;> simp [requestReboot, h, canReboot_some]
      simp [dispatch, htwice]
    | _ => simp [dispatch]

structure Guarded (d : Device) : Prop where
  can : ∀ now, canReboot d.lastReboot now 60 = true ↔ ∀ t ∈ d.commands, t + 60 ≤ now
  spaced : d.commands.Pairwise fun s t => s + 60 ≤ t

theorem Guarded.handle {d : Device} (h : Guarded d) (f : Frame) : Guarded (handle d f) := by
  rw [Trigger.handle, foldl_dispatch, requestReboot]
  split_ifs with hasks hcan
  · have hdue := (h.can f.now).mp hcan
    refine ⟨fun now => (canReboot_some _ _).trans ⟨fun hnow => ?_, fun hall => hall _ (by simp)⟩, ?_⟩
    · exact List.forall_mem_append.mpr ⟨fun t ht => by linarith [hdue t ht], by simpa using hnow⟩
    · exact List.pairwise_append.mpr ⟨h.spaced, List.pairwise_singleton _ _, by simpa using hdue⟩
  · exact h
  · exact h

end PiBuddyCam.Trigger
