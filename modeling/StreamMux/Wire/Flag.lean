/-! The nine kinds of frames: their codes on the wire, which of them carry a payload and how long it
may be, and which of them may overtake ordinary traffic. -/

namespace StreamMux

/-- Bytes of a pooled payload buffer; a ping may always fill one. -/
def poolBufferSize : Nat := 4096

/-- The longest payload that the two bytes of the length field can announce. -/
def maxPayload : Nat := 65535

/-- What a frame does. -/
inductive Flag
  /-- Keep-alive ping with the sender's stamp. -/
  | ping
  /-- The new connection is accepted. -/
  | newConnOk
  /-- The new connection is refused. -/
  | newConnFail
  /-- Last segment of a message. -/
  | newMsg
  /-- Segment of a message that more segments follow. -/
  | newMsgPart
  /-- Credit that the reader gives back. -/
  | msgSendOk
  /-- Request for a new connection. -/
  | newConn
  /-- End of a connection. -/
  | connClose
  /-- Echo of a ping. -/
  | pingReturn
  deriving DecidableEq

namespace Flag

/-- Every flag, in the order of the wire codes. -/
def all : List Flag :=
  [.ping, .newConnOk, .newConnFail, .newMsg, .newMsgPart, .msgSendOk, .newConn, .connClose, .pingReturn]

def toByte : Flag → UInt8
  | .ping => 0
  | .newConnOk => 1
  | .newConnFail => 2
  | .newMsg => 3
  | .newMsgPart => 4
  | .msgSendOk => 5
  | .newConn => 6
  | .connClose => 7
  | .pingReturn => 8

def ofByte? (b : UInt8) : Option Flag := all[b.toNat]?

@[simp] theorem ofByte?_toByte (f : Flag) : ofByte? f.toByte = some f := by cases f <;> rfl

theorem toByte_of_ofByte? {b : UInt8} {f : Flag} (h : ofByte? b = some f) : f.toByte = b := by
  apply UInt8.toNat_inj.mp
  unfold ofByte? at h
  generalize b.toNat = n at h ⊢
  match n, h with
  | 0, h | 1, h | 2, h | 3, h | 4, h | 5, h | 6, h | 7, h | 8, h =>
    simp [all] at h; subst h; rfl
  | _ + 9, h => simp [all] at h

theorem ofByte?_eq_none_iff (b : UInt8) : ofByte? b = none ↔ 8 < b.toNat := by
  simp [ofByte?, all]; omega

/-- Frames that carry a payload behind a length field. -/
def hasPayload : Flag → Bool
  | .ping | .pingReturn | .newMsg | .newMsgPart => true
  | _ => false

/-- Frames that may overtake others: they keep no order with the data of a connection. -/
def isPriority : Flag → Bool
  | .ping | .pingReturn | .msgSendOk => true
  | _ => false

/-- Segments of a message. -/
def isData : Flag → Bool
  | .newMsg | .newMsgPart => true
  | _ => false

/-- The longest payload of a frame: a segment's limit for messages, at least a pooled buffer for pings. -/
def payloadLimit (maxSegment : Nat) : Flag → Nat
  | .newMsg | .newMsgPart => min maxSegment maxPayload
  | .ping | .pingReturn => min (max maxSegment poolBufferSize) maxPayload
  | _ => 0

theorem payloadLimit_le (maxSegment : Nat) (f : Flag) : f.payloadLimit maxSegment ≤ maxPayload := by
  cases f <;> simp only [payloadLimit] <;> omega

end Flag

end StreamMux
