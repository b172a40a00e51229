import PiBuddyCam.CrashProg
import PiBuddyCam.PyText
import PiBuddyCam.Riff
import Mathlib.Algebra.Order.Ring.Int

/-! The two AVI writers of `app/timelapse.py`: `_build_avi_bytes`, which holds the whole
file in memory, and `_build_avi_stream`, which copies the frames piece by piece. -/
namespace PiBuddyCam.Timelapse

open Riff

abbrev Bytes := List UInt8

inductive BuildError where
  | structError
  | zeroDivision
  /-- `ValueError`: there is nothing to build. -/
  | noFrames
  | buildCancelled
  /-- `OSError('frame truncated')`. -/
  | frameTruncated
  deriving DecidableEq

/-- An item of a `struct.pack` format: `4s`, then `I` or `H`, then `i` or `h`. -/
inductive Item where
  | tag (name : Bytes)
  | unsigned (width : ℕ) (x : ℤ)
  | signed (width : ℕ) (x : ℤ)

def Item.Fits : Item → Prop
  | .tag _ => True
  | .unsigned width x => 0 ≤ x ∧ x < 256^width
  | .signed width x => -(256^width) ≤ 2*x ∧ 2*x < 256^width

instance (item : Item) : Decidable item.Fits :=
  match item with
  | .tag _ => inferInstanceAs (Decidable True)
  | .unsigned width x => inferInstanceAs (Decidable (0 ≤ x ∧ x < 256^width))
  | .signed width x => inferInstanceAs (Decidable (-(256^width) ≤ 2*x ∧ 2*x < 256^width))

def Item.bytes : Item → Bytes
  | .tag name => name
  | .unsigned width x => littleEndian width x.toNat
  | .signed width x => littleEndian width (x % 256^width).toNat

def pack (items : List Item) : Except BuildError Bytes :=
  if ∀ item ∈ items, item.Fits then .ok (items.flatMap Item.bytes) else .error .structError

def fourcc (a b c d : Char) : Bytes := [a, b, c, d].map (fun char => UInt8.ofNat char.toNat)

def sized (name body : Bytes) : Except BuildError Bytes := do
  let size ← pack [.unsigned 4 body.length]
  pure (name ++ (size ++ body))

def aviChunk (name payload : Bytes) : Except BuildError Bytes := do
  let size ← pack [.unsigned 4 payload.length]
  pure (name ++ (size ++ (payload ++ padding payload.length)))

def avihItems (microPerFrame maxBytesPerSec frameCount maxFrame width height : ℤ) : List Item :=
  [.unsigned 4 microPerFrame, .unsigned 4 maxBytesPerSec, .unsigned 4 0, .unsigned 4 0x10,
    .unsigned 4 frameCount, .unsigned 4 0, .unsigned 4 1, .unsigned 4 maxFrame, .unsigned 4 width,
    .unsigned 4 height, .unsigned 4 0, .unsigned 4 0, .unsigned 4 0, .unsigned 4 0]

def strhItems (fps frameCount maxFrame width height : ℤ) : List Item :=
  [.tag (fourcc 'v' 'i' 'd' 's'), .tag (fourcc 'M' 'J' 'P' 'G'), .unsigned 4 0, .unsigned 2 0, .unsigned 2 0,
    .unsigned 4 0, .unsigned 4 1, .unsigned 4 fps, .unsigned 4 0, .unsigned 4 frameCount, .unsigned 4 maxFrame,
    .unsigned 4 0xFFFFFFFF, .unsigned 4 0, .signed 2 0, .signed 2 0, .signed 2 width, .signed 2 height]

def strfItems (width height : ℤ) : List Item :=
  [.unsigned 4 40, .signed 4 width, .signed 4 height, .unsigned 2 1, .unsigned 2 24,
    .tag (fourcc 'M' 'J' 'P' 'G'), .unsigned 4 (width*height*3), .signed 4 0, .signed 4 0, .unsigned 4 0, .unsigned 4 0]

section Writers

-- `int(a / b)`, a quotient that goes through a float
variable (quotient : ℤ → ℤ → ℤ)

def aviHeader (fps width height : ℤ) (frameCount maxFrame totalBytes : ℕ) : Except BuildError Bytes := do
  if fps = 0 then throw .zeroDivision
  let microPerFrame := max 1 (quotient 1000000 fps)
  let maxBytesPerSec := quotient (totalBytes*fps) frameCount
  let avih ← pack (avihItems microPerFrame maxBytesPerSec frameCount maxFrame width height)
  let strh ← pack (strhItems fps frameCount maxFrame width height)
  let strf ← pack (strfItems width height)
  let strhChunk ← aviChunk (fourcc 's' 't' 'r' 'h') strh
  let strfChunk ← aviChunk (fourcc 's' 't' 'r' 'f') strf
  let strl ← sized (fourcc 'L' 'I' 'S' 'T') (fourcc 's' 't' 'r' 'l' ++ (strhChunk ++ strfChunk))
  let avihChunk ← aviChunk (fourcc 'a' 'v' 'i' 'h') avih
  sized (fourcc 'L' 'I' 'S' 'T') (fourcc 'h' 'd' 'r' 'l' ++ (avihChunk ++ strl))

def appendFrames : List Bytes → Bytes → Bytes → Except BuildError (Bytes × Bytes)
  | [], movi, idx => .ok (movi, idx)
  | jpeg :: payloads, movi, idx => do
    let chunk ← aviChunk (fourcc '0' '0' 'd' 'c') jpeg
    let entry ← pack [.unsigned 4 0x10, .unsigned 4 movi.length, .unsigned 4 jpeg.length]
    appendFrames payloads (movi ++ chunk) (idx ++ (fourcc '0' '0' 'd' 'c' ++ entry))

def maxLength (payloads : List Bytes) : ℕ := (payloads.map List.length).foldl max 0

def totalLength (payloads : List Bytes) : ℕ := (payloads.map List.length).foldl (· + ·) 0

def buildAviBytes (payloads : List Bytes) (fps width height : ℤ) : Except BuildError Bytes := do
  -- `max` of no lengths raises
  if payloads = [] then throw .noFrames
  let hdrl ← aviHeader quotient fps width height payloads.length (maxLength payloads) (totalLength payloads)
  let (movi, idx) ← appendFrames payloads (fourcc 'm' 'o' 'v' 'i') []
  let moviList ← sized (fourcc 'L' 'I' 'S' 'T') movi
  let idx1 ← sized (fourcc 'i' 'd' 'x' '1') idx
  sized (fourcc 'R' 'I' 'F' 'F') (fourcc 'A' 'V' 'I' ' ' ++ (hdrl ++ (moviList ++ idx1)))

/-- What a build does to the outside. `opener` makes the given content the open frame. -/
inductive Op where
  | write (data : Bytes)
  | opener (content : Bytes)
  | read (n : ℕ)
  | stopped
  | progress (written total : ℕ)

abbrev Op.Res : Op → Type
  | .write _ => Unit
  | .opener _ => Unit
  | .read _ => Bytes
  | .stopped => Bool
  | .progress _ _ => Unit

abbrev Build := Prog Op Op.Res

abbrev sys (o : Op) : Build o.Res := Prog.op o

structure Files where
  out : Bytes := []
  handle : Bytes := []

/-- `short` is how much a read would like to return, `stop` what the stop event says. -/
structure Choice where
  short : ℕ
  stop : Bool

def readLength (n : ℕ) (c : Choice) : ℕ := min n (max 1 c.short)

def fileSystem : Machine Op Op.Res Files Choice where
  step s o c :=
    match o with
    | .write data => ((), { s with out := s.out ++ data })
    | .opener content => ((), { s with handle := content })
    | .read n => (s.handle.take (readLength n c), { s with handle := s.handle.drop (readLength n c) })
    | .stopped => (c.stop, s)
    | .progress _ _ => ((), s)

/-- An entry of `frames`: the size that was listed and what its opener yields. -/
structure Frame where
  size : ℕ
  content : Bytes

/-- The keyword arguments; of the callback and of the event, whether they were given. -/
structure Options where
  readChunk : ℕ := 64*1024
  progress : Bool := false
  stopEvent : Bool := false

def whenOk {α β : Type} (r : Except BuildError α) (f : α → Build (Except BuildError β)) : Build (Except BuildError β) :=
  match r with
  | .error e => pure (.error e)
  | .ok a => f a

def cancelled (opts : Options) : Build Bool := if opts.stopEvent then sys .stopped else pure false

def copyFrame (opts : Options) (remaining : ℕ) : Build (Except BuildError Unit) :=
  if remaining = 0 then pure (.ok ())
  else do
    if ← cancelled opts then pure (.error .buildCancelled)
    else do
      let chunk ← sys (.read (min opts.readChunk remaining))
      if chunk = [] then pure (.error .frameTruncated)
      else do
        sys (.write chunk)
        copyFrame opts (remaining - chunk.length)
termination_by remaining
decreasing_by
  have := List.length_pos_iff.mpr ‹chunk ≠ []›
  omega

def padFrame (size : ℕ) : Build Unit := if size%2 = 1 then sys (.write [0]) else pure ()

def reportProgress (opts : Options) (written total : ℕ) : Build Unit :=
  if opts.progress then sys (.progress written total) else pure ()

def writeFrames (opts : Options) (total : ℕ) : ℕ → List Frame → Build (Except BuildError Unit)
  | _, [] => pure (.ok ())
  | written, frame :: frames =>
    whenOk (pack [.unsigned 4 frame.size]) fun size => do
      sys (.write (fourcc '0' '0' 'd' 'c' ++ size))
      sys (.opener frame.content)
      let copied ← copyFrame opts frame.size
      whenOk copied fun _ => do
        padFrame frame.size
        reportProgress opts (written + 1) total
        writeFrames opts total (written + 1) frames

def writeIndex : ℕ → List Frame → Build (Except BuildError Unit)
  | _, [] => pure (.ok ())
  | offset, frame :: frames =>
    whenOk (pack [.unsigned 4 0x10, .unsigned 4 offset, .unsigned 4 frame.size]) fun entry => do
      sys (.write (fourcc '0' '0' 'd' 'c' ++ entry))
      writeIndex (offset + (8 + frame.size + frame.size%2)) frames

structure Measure where
  maxFrame : ℕ := 0
  totalBytes : ℕ := 0
  moviPayloadLen : ℕ := 4

def Measure.add (m : Measure) (frame : Frame) : Measure where
  maxFrame := if m.maxFrame < frame.size then frame.size else m.maxFrame
  totalBytes := m.totalBytes + frame.size
  moviPayloadLen := m.moviPayloadLen + (8 + frame.size + frame.size%2)

def measure (frames : List Frame) : Measure := frames.foldl Measure.add {}

def buildAviStream (opts : Options) (frames : List Frame) (fps width height : ℤ) : Build (Except BuildError Unit) :=
  if frames = [] then pure (.error .noFrames)
  else
    let m := measure frames
    whenOk (aviHeader quotient fps width height frames.length m.maxFrame m.totalBytes) fun hdrl =>
    let idxLen := 16*frames.length
    let bodyLen := 4 + hdrl.length + 8 + m.moviPayloadLen + 8 + idxLen
    whenOk (pack [.unsigned 4 bodyLen]) fun bodySize => do
      sys (.write (fourcc 'R' 'I' 'F' 'F' ++ (bodySize ++ fourcc 'A' 'V' 'I' ' ')))
      sys (.write hdrl)
      whenOk (pack [.unsigned 4 m.moviPayloadLen]) fun moviSize => do
        sys (.write (fourcc 'L' 'I' 'S' 'T' ++ (moviSize ++ fourcc 'm' 'o' 'v' 'i')))
        let framesWritten ← writeFrames opts frames.length 0 frames
        whenOk framesWritten fun _ =>
          whenOk (pack [.unsigned 4 idxLen]) fun idxSize => do
            sys (.write (fourcc 'i' 'd' 'x' '1' ++ idxSize))
            writeIndex 4 frames

end Writers

end PiBuddyCam.Timelapse
