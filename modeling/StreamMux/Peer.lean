import StreamMux.Wire.Decoder

/-! The far end of a session's link, played by hand: it reads the frames that the session writes, and
can send the last ping back. -/

namespace StreamMux

structure Peer where
  decoder : Decoder := .start
  /-- The payload of the last ping. -/
  lastPing : Bytes := []
  deriving DecidableEq

namespace Peer

/-- Read what has come in; an unfinished frame is kept, and a fault drops what is left. -/
def frames (decoder : Decoder) (bytes : Bytes) : Decoder × List Frame :=
  match _h : decoder.run maxPayload bytes with
  | .short decoder => (decoder, [])
  | .error _ _ => (.start, [])
  | .frame frame rest =>
    let (decoder, more) := frames .start rest
    (decoder, frame :: more)
termination_by bytes.length
decreasing_by exact Decoder.length_lt_of_run_eq_frame _h

/-- Read what has come in, and remember the last ping. -/
def receive (bytes : Bytes) (p : Peer) : Peer × List Frame :=
  let (decoder, more) := frames p.decoder bytes
  let pings := more.filterMap fun f => if f.flag = .ping then f.payload else none
  ({ decoder, lastPing := pings.getLastD p.lastPing }, more)

/-- The frame that sends the last ping back. -/
def pong (p : Peer) : Frame := .pingReturn p.lastPing

end Peer

end StreamMux
