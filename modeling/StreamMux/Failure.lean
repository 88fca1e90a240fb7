/-! What can go wrong on the link, with a frame, and in a call, each with the text that reports it. -/

namespace StreamMux

/-- The link gave no more bytes, or took none. -/
inductive LinkError
  /-- The stream ended in the middle of what was to be read. -/
  | endOfStream
  /-- The transport failed for the reason given. -/
  | failed (reason : String)
  deriving DecidableEq

def LinkError.message : LinkError → String
  | .endOfStream => "unexpected end of file"
  | .failed reason => reason

/-- A frame could not be read or written. -/
inductive FrameError
  | unknownFlag (byte : UInt8)
  | payloadTooLarge (length limit : Nat)
  | link (cause : LinkError)
  deriving DecidableEq

/-- Two lower-case hexadecimal digits. -/
def hexByte (b : UInt8) : String :=
  String.ofList [Nat.digitChar (b.toNat / 16), Nat.digitChar (b.toNat % 16)]

def FrameError.message : FrameError → String
  | .unknownFlag byte => "unknown frame flag: 0x" ++ hexByte byte
  | .payloadTooLarge length limit =>
    "payload too large: " ++ toString length ++ " bytes (max " ++ toString limit ++ ")"
  | .link cause => "i/o error: " ++ cause.message

/-- Why a call on a session or on one of its connections failed. -/
inductive MuxError
  /-- The session is closed. -/
  | sessionClosed
  /-- The session was closed before this close. -/
  | alreadyClosed
  /-- The peer did not answer a request for a connection in time. -/
  | openTimeout
  /-- The peer refused a connection. -/
  | connectionRefused
  /-- No more connections will arrive. -/
  | acceptClosed
  /-- The connection is closed. -/
  | connectionClosed (id : Int32)
  /-- A segment does not fit into the receive window. -/
  | windowOverflow (id : Int32) (buffered incoming capacity : Nat)
  | frame (cause : FrameError)
  | link (cause : LinkError)
  deriving DecidableEq

namespace MuxError

def message : MuxError → String
  | .sessionClosed => "the mux session is closed"
  | .alreadyClosed => "the mux session has already been closed"
  | .openTimeout => "timed out waiting for the peer to accept the connection"
  | .connectionRefused => "the peer refused the connection"
  | .acceptClosed => "accept failed: the session is shutting down"
  | .connectionClosed id => "connection " ++ toString id.toInt ++ " is closed"
  | .windowOverflow id buffered incoming capacity =>
    "receive window overflow on connection " ++ toString id.toInt ++ ": " ++ toString buffered
      ++ " + " ++ toString incoming ++ " > " ++ toString capacity
  | .frame cause => "frame error: " ++ cause.message
  | .link cause => "i/o error: " ++ cause.message

/-- The whole session is unusable. -/
def isFatal : MuxError → Bool
  | .sessionClosed | .alreadyClosed | .frame _ | .link _ => true
  | _ => false

/-- The session or the connection is closed. -/
def isClosed : MuxError → Bool
  | .sessionClosed | .alreadyClosed | .acceptClosed | .connectionClosed _ => true
  | _ => false

end MuxError

end StreamMux
