import StreamMux.Buffer.Pool
import StreamMux.Wire.Decoder

/-! Reading frames into pooled buffers. A buffer is taken when the length of a payload is known, and
given back if the payload does not arrive whole. -/

namespace StreamMux

/-- A frame that was read, with the buffer that holds its payload. -/
structure Received where
  frame : Frame
  buffer : Option Buffer
  deriving DecidableEq

namespace Received

/-- Payload bytes that were copied into the buffer. -/
def copied (r : Received) : Nat := (r.buffer.map (·.bytes.length)).getD 0

/-- Give the frame's buffer back. -/
def release (p : Pool) (r : Received) : Pool :=
  match r.buffer with
  | some b => p.release b
  | none => p

end Received

namespace Pool

/-- Hold a frame that was read: its payload goes into a buffer of the pool. -/
def receive (f : Frame) (p : Pool) : Pool × Received :=
  match f.payload with
  | none => (p, ⟨f, none⟩)
  | some bytes =>
    let (p, b) := p.copy bytes
    (p, ⟨f, some b⟩)

/-- What an unfinished frame leaves behind: a payload that had begun took a buffer, and gave it back. -/
def abandon (p : Pool) : Decoder → Pool
  | .inPayload _ _ missing got =>
    let (p, b) := p.acquire
    p.release (b.resize (got.length + missing) 0)
  | _ => p

/-- Read one frame from the front of a string of bytes. -/
def readFrame (maxSegment : Nat) (bytes : Bytes) (p : Pool) :
    Pool × Except FrameError Received × Bytes :=
  match Decoder.start.run maxSegment bytes with
  | .short d => (p.abandon d, .error (.link .endOfStream), [])
  | .error cause rest => (p, .error cause, rest)
  | .frame frame rest =>
    let (p, r) := p.receive frame
    (p, .ok r, rest)

/-- How reading a whole string of bytes ends: the frames it held, each with the bytes left behind it,
what ended it, and the bytes left then. -/
structure Stream where
  pool : Pool
  frames : List (Received × Nat)
  cause : FrameError
  rest : Bytes
  deriving DecidableEq

/-- Read frames up to a fault or the end of the bytes, holding them all. -/
def readStream (maxSegment : Nat) (bytes : Bytes) (p : Pool) : Stream :=
  match _h : Decoder.start.run maxSegment bytes with
  | .short d => ⟨p.abandon d, [], .link .endOfStream, []⟩
  | .error cause rest => ⟨p, [], cause, rest⟩
  | .frame frame rest =>
    let (p, r) := p.receive frame
    let s := p.readStream maxSegment rest
    { s with frames := (r, rest.length) :: s.frames }
termination_by bytes.length
decreasing_by exact Decoder.length_lt_of_run_eq_frame _h

end Pool

end StreamMux
