import StreamMux.Wire.Bytes
import StreamMux.Wire.Flag
import StreamMux.Failure

/-! Frames and their writing: flag, connection id, then a payload behind its length, or the credit of
a credit report, or nothing. -/

namespace StreamMux

/-- The id that frames of the session itself carry. -/
def sessionId : Int32 := -1

/-- Bytes of flag and id. -/
def headerSize : Nat := 5

/-- Bytes of the length in front of a payload. -/
def lengthSize : Nat := 2

/-- Bytes of the credit in a credit report. -/
def windowSize : Nat := 4

structure Frame where
  flag : Flag
  id : Int32
  payload : Option Bytes := none
  window : UInt32 := 0
  deriving DecidableEq

namespace Frame

/-- A frame of flag and id alone. -/
def control (flag : Flag) (id : Int32) : Frame := { flag, id }

/-- A segment of a message; `part` tells that more of the message follows. -/
def data (id : Int32) (payload : Bytes) (part : Bool) : Frame :=
  { flag := if part then .newMsgPart else .newMsg, id, payload := some payload }

def ping (payload : Bytes) : Frame := { flag := .ping, id := sessionId, payload := some payload }

/-- The echo of a received ping. -/
def pingReturn (payload : Bytes) : Frame :=
  { flag := .pingReturn, id := sessionId, payload := some payload }

/-- The reader of a connection gives `window` bytes of credit back. -/
def sendOk (id : Int32) (window : UInt32) : Frame := { flag := .msgSendOk, id, window }

/-- The payload, empty where there is none. -/
def bytes (f : Frame) : Bytes := f.payload.getD []

/-- The payload, and the frame left without it. -/
def takePayload (f : Frame) : Option Bytes × Frame := (f.payload, { f with payload := none })

def encodedLength (f : Frame) : Nat :=
  headerSize +
    if f.flag.hasPayload then lengthSize + f.bytes.length
    else if f.flag = .msgSendOk then windowSize
    else 0

/-- What follows flag and id. -/
def body (f : Frame) : Bytes :=
  if f.flag.hasPayload then LittleEndian.encode lengthSize f.bytes.length ++ f.bytes
  else if f.flag = .msgSendOk then LittleEndian.encode windowSize f.window.toNat
  else []

/-- The bytes of a frame, whatever the length of its payload. -/
def wire (f : Frame) : Bytes :=
  f.flag.toByte :: LittleEndian.encode 4 f.id.toUInt32.toNat ++ f.body

/-- The bytes of a frame, refused when the payload is over the limit of its flag. -/
def encode (maxSegment : Nat) (f : Frame) : Except FrameError Bytes :=
  if f.flag.hasPayload ∧ f.flag.payloadLimit maxSegment < f.bytes.length then
    .error (.payloadTooLarge f.bytes.length (f.flag.payloadLimit maxSegment))
  else
    .ok f.wire

/-- Append a frame to a buffer, field by field. A frame that is refused is refused before its first
byte. -/
def encodeOnto (maxSegment : Nat) (buffer : Bytes) (f : Frame) : Except FrameError Unit × Bytes :=
  let limit := f.flag.payloadLimit maxSegment
  if f.flag.hasPayload ∧ limit < f.bytes.length then
    (.error (.payloadTooLarge f.bytes.length limit), buffer)
  else
    let buffer := buffer ++ [f.flag.toByte]
    let buffer := buffer ++ LittleEndian.encode 4 f.id.toUInt32.toNat
    if f.flag.hasPayload then
      let buffer := buffer ++ LittleEndian.encode lengthSize f.bytes.length
      (.ok (), buffer ++ f.bytes)
    else if f.flag = .msgSendOk then (.ok (), buffer ++ LittleEndian.encode windowSize f.window.toNat)
    else (.ok (), buffer)

/-- Append frames to a buffer one after the other, and answer how each of them fared. -/
def encodeAll (maxSegment : Nat) : Bytes → List Frame → List (Except FrameError Unit) × Bytes
  | buffer, [] => ([], buffer)
  | buffer, f :: frames =>
    let (outcome, buffer) := f.encodeOnto maxSegment buffer
    let (outcomes, buffer) := encodeAll maxSegment buffer frames
    (outcome :: outcomes, buffer)

/-- The frame that a reader of its bytes sees: only what the flag lets the wire carry. -/
def normal (f : Frame) : Frame :=
  { f with
    payload := if f.flag.hasPayload then some f.bytes else none
    window := if f.flag = .msgSendOk then f.window else 0 }

@[simp] theorem length_wire (f : Frame) : f.wire.length = f.encodedLength := by
  unfold wire encodedLength body
  split
  · simp [headerSize]; omega
  · split
    · simp [headerSize]; omega
    · simp [headerSize]

end Frame

end StreamMux
