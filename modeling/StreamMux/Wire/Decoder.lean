import StreamMux.Wire.Frame

/-! Reading frames byte by byte. The decoder holds the part of the frame that has arrived, so a stream
may be cut into pieces anywhere; each fault shows with the byte that completes its field. -/

namespace StreamMux

/-- What has arrived of the frame being read; a payload is held in reverse. -/
inductive Decoder
  | start
  | inId (flag : Flag) (got : Bytes)
  | inLength (flag : Flag) (id : Int32) (got : Bytes)
  | inWindow (id : Int32) (got : Bytes)
  | inPayload (flag : Flag) (id : Int32) (missing : Nat) (got : Bytes)
  deriving DecidableEq

namespace Decoder

/-- What one more byte leads to. -/
inductive Progress
  | more (decoder : Decoder)
  | frame (frame : Frame)
  | error (cause : FrameError)
  deriving DecidableEq

/-- The connection id in the four bytes of its field. -/
def idOfBytes (bs : Bytes) : Int32 := (UInt32.ofNat (LittleEndian.decode bs)).toInt32

/-- After the id: which field comes next. -/
def afterId (flag : Flag) (id : Int32) : Progress :=
  if flag.hasPayload then .more (.inLength flag id [])
  else if flag = .msgSendOk then .more (.inWindow id [])
  else .frame (.control flag id)

/-- After the length: the payload, unless it is too long or empty. -/
def afterLength (maxSegment : Nat) (flag : Flag) (id : Int32) (length : Nat) : Progress :=
  if flag.payloadLimit maxSegment < length then
    .error (.payloadTooLarge length (flag.payloadLimit maxSegment))
  else if length = 0 then .frame { flag, id, payload := some [] }
  else .more (.inPayload flag id length [])

/-- Take one byte. -/
def step (maxSegment : Nat) (byte : UInt8) : Decoder → Progress
  | .start =>
    match Flag.ofByte? byte with
    | some flag => .more (.inId flag [])
    | none => .error (.unknownFlag byte)
  | .inId flag got =>
    let field := got ++ [byte]
    if field.length < 4 then .more (.inId flag field) else afterId flag (idOfBytes field)
  | .inLength flag id got =>
    let field := got ++ [byte]
    if field.length < lengthSize then .more (.inLength flag id field)
    else afterLength maxSegment flag id (LittleEndian.decode field)
  | .inWindow id got =>
    let field := got ++ [byte]
    if field.length < windowSize then .more (.inWindow id field)
    else .frame (.sendOk id (UInt32.ofNat (LittleEndian.decode field)))
  | .inPayload flag id missing got =>
    if missing ≤ 1 then .frame { flag, id, payload := some (byte :: got).reverse }
    else .more (.inPayload flag id (missing - 1) (byte :: got))

/-- How reading from a string of bytes ends: the frame or the fault, with the bytes left over, or
the decoder that waits for more. -/
inductive Reading
  | short (decoder : Decoder)
  | frame (frame : Frame) (rest : Bytes)
  | error (cause : FrameError) (rest : Bytes)
  deriving DecidableEq

/-- Take bytes up to the end of the frame, a fault, or the end of the bytes. -/
def run (maxSegment : Nat) : Decoder → Bytes → Reading
  | d, [] => .short d
  | d, byte :: rest =>
    match d.step maxSegment byte with
    | .more d => run maxSegment d rest
    | .frame frame => .frame frame rest
    | .error cause => .error cause rest

/-- Bytes that arrive in two pieces are read as if they came in one. -/
theorem run_append (maxSegment : Nat) (d : Decoder) (xs ys : Bytes) :
    run maxSegment d (xs ++ ys) =
      match run maxSegment d xs with
      | .short d => run maxSegment d ys
      | .frame frame rest => .frame frame (rest ++ ys)
      | .error cause rest => .error cause (rest ++ ys) := by
  induction xs generalizing d with
  | nil => rfl
  | cons x xs ih =>
    rw [List.cons_append, run, run]
    cases d.step maxSegment x with
    | more d => exact ih d
    | frame _ => rfl
    | error _ => rfl

/-- A frame takes at least one byte. -/
theorem length_lt_of_run_eq_frame {maxSegment : Nat} {d : Decoder} {bytes rest : Bytes} {f : Frame}
    (h : run maxSegment d bytes = .frame f rest) : rest.length < bytes.length := by
  induction bytes generalizing d with
  | nil => simp [run] at h
  | cons b bytes ih =>
    rw [run] at h
    split at h
    · have := ih h
      simp only [List.length_cons]; omega
    · cases h; simp
    · cases h

end Decoder

/-- Read one frame from the front of a string; a string that stops short of it is used up. -/
def Frame.read (maxSegment : Nat) (bytes : Bytes) : Except FrameError Frame × Bytes :=
  match Decoder.start.run maxSegment bytes with
  | .short _ => (.error (.link .endOfStream), [])
  | .frame frame rest => (.ok frame, rest)
  | .error cause rest => (.error cause, rest)

/-- Read so many frames, one after the other, each from what the one before left. -/
def Frame.readMany (maxSegment : Nat) : Nat → Bytes → List (Except FrameError Frame) × Bytes
  | 0, bytes => ([], bytes)
  | count + 1, bytes =>
    let (outcome, rest) := Frame.read maxSegment bytes
    let (outcomes, rest) := readMany maxSegment count rest
    (outcome :: outcomes, rest)

end StreamMux
