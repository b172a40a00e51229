import PiBuddyCam.ByteSearch

/-! `app/stream_mux.py`: one H.264 stream, read block by block, for the clients of two ports.
The second port gets every SPS with its profile and level replaced. -/
namespace PiBuddyCam.Stream

open ByteSearch

abbrev Bytes := List UInt8

def bufsize : ℕ := 65536

def maxQueue : ℕ := 120

def startCode : Bytes := [0, 0, 0, 1]

def spsFields : Bytes := [0x42, 0xE0, 0x1F]

def nalType (header : UInt8) : UInt8 := header &&& 0x1F

def setFields (out : Bytes) (k : ℕ) : Bytes := ((out.set (k+1) 0x42).set (k+2) 0xE0).set (k+3) 0x1F

theorem length_setFields (out : Bytes) (k : ℕ) : (setFields out k).length = out.length := by
  rw [setFields, List.length_set, List.length_set, List.length_set]

def patchAt (out : Bytes) (k : ℕ) : Bytes :=
  if k + 3 < out.length ∧ nalType (out.getD k 0) = 7 then setFields out k else out

theorem length_patchAt (out : Bytes) (k : ℕ) : (patchAt out k).length = out.length := by
  rw [patchAt]
  split_ifs
  · exact length_setFields out k
  · rfl

def patchFrom (out : Bytes) (i : ℕ) : Bytes :=
  match h : find [0, 0, 1] out i with
  | none => out
  | some j => patchFrom (patchAt out (j + 3)) (j + 3)
termination_by out.length - i
decreasing_by
  have hbounds := bounds_of_find (by simp) h
  rw [List.length_cons, List.length_cons, List.length_cons, List.length_nil] at hbounds
  rw [length_patchAt]
  omega

def patchSps (data : Bytes) : Bytes := patchFrom data 0

def keyframeFrom (data : Bytes) (start : ℕ) : Bool :=
  match h : find startCode data start with
  | none => false
  | some i =>
    if i + 4 < data.length then
      if nalType (data.getD (i+4) 0) ∈ [5, 7] then true else keyframeFrom data (i + 4)
    else false
termination_by data.length - start
decreasing_by
  have hbounds := bounds_of_find (by simp [startCode]) h
  omega

def isKeyframeStart (data : Bytes) : Bool := keyframeFrom data 0

def spsPos (chunk : Bytes) : ℕ :=
  ((List.range (chunk.length - 4)).find? fun offset =>
    (chunk.drop offset).take 4 = startCode ∧ nalType (chunk.getD (offset + 4) 0) ∈ [5, 7]).getD chunk.length

structure Client where
  queue : List Bytes := []
  received : List Bytes := []

/-- A port. `joining` are the connections that were sent the keyframe and are not yet registered;
`sent` and `promoted` keep what was broadcast and what was set as the keyframe. -/
structure Channel where
  patch : Bool := false
  clients : List Client := []
  joining : List Client := []
  keyframe : Bytes := []
  sent : List Bytes := []
  promoted : List Bytes := []

def Client.enqueue (c : Client) (data : Bytes) : Client :=
  let queue := c.queue ++ [data]
  { c with queue := queue.drop (queue.length - maxQueue) }

def Client.send (c : Client) : Client :=
  match c.queue with
  | [] => c
  | data :: rest => { queue := rest, received := c.received ++ [data] }

def outgoing (patch : Bool) (data : Bytes) : Bytes := if patch then patchSps data else data

def bootstrap (patch : Bool) (buf : Bytes) : Bytes := if patch ∧ patchSps buf ≠ [] then patchSps buf else buf

def Channel.broadcast (ch : Channel) (data : Bytes) : Channel :=
  { ch with
    clients := ch.clients.map (·.enqueue (outgoing ch.patch data))
    sent := ch.sent ++ [outgoing ch.patch data] }

def Channel.setKeyframe (ch : Channel) (data : Bytes) : Channel :=
  { ch with keyframe := data, promoted := ch.promoted ++ [data] }

def Channel.promote (ch : Channel) : Option Bytes → Channel
  | none => ch
  | some buf => ch.setKeyframe (bootstrap ch.patch buf)

def Channel.accept (ch : Channel) : Channel :=
  { ch with joining := ch.joining ++ [{ received := if ch.keyframe = [] then [] else [ch.keyframe] }] }

def Channel.join (ch : Channel) : Channel :=
  match ch.joining with
  | [] => ch
  | c :: rest => { ch with clients := ch.clients ++ [c], joining := rest }

structure Mux where
  kfBuf : Bytes := []
  channels : List Channel := [{}, { patch := true }]

def keyframeStep (kfBuf chunk : Bytes) : Bytes × Option Bytes :=
  if isKeyframeStart chunk then (chunk.drop (spsPos chunk), none)
  else if kfBuf ≠ [] then
    if 32768 < (kfBuf ++ chunk).length then ([], some (kfBuf ++ chunk)) else (kfBuf ++ chunk, none)
  else (kfBuf, none)

/-- What happens between the threads: the main loop reads a block, a client connects, is registered,
is sent what is at the head of its queue, or leaves. -/
inductive Event where
  | block (chunk : Bytes)
  | accept (port : ℕ)
  | join (port : ℕ)
  | send (port client : ℕ)
  | leave (port client : ℕ)

def Mux.block (m : Mux) (chunk : Bytes) : Mux where
  kfBuf := (keyframeStep m.kfBuf chunk).1
  channels := m.channels.map fun ch => (ch.promote (keyframeStep m.kfBuf chunk).2).broadcast chunk

def Mux.step (m : Mux) : Event → Mux
  | .block chunk => m.block chunk
  | .accept port => { m with channels := m.channels.modify port Channel.accept }
  | .join port => { m with channels := m.channels.modify port Channel.join }
  | .send port client =>
    { m with channels := m.channels.modify port fun ch => { ch with clients := ch.clients.modify client Client.send } }
  | .leave port client =>
    { m with channels := m.channels.modify port fun ch => { ch with clients := ch.clients.eraseIdx client } }

def Mux.run (m : Mux) (events : List Event) : Mux := events.foldl Mux.step m

def Event.chunk? : Event → Option Bytes
  | .block chunk => some chunk
  | _ => none

end PiBuddyCam.Stream
