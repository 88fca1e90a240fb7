import StreamMux.Session.Close

/-! What a frame from the peer does. A frame for a connection reaches the one that is registered under
its id, and is dropped if there is none. -/

namespace StreamMux

namespace Session

/-- A segment for a connection; one that its window refuses closes the connection. -/
def pushSegment (conn : Nat) (data : Bytes) (part : Bool) (s : Session) : Session :=
  match s.conns[conn]? with
  | none => s
  | some c =>
    match c.inflow.write c.id data part with
    | .error _ => s.closeConn conn
    | .ok (inflow, woken) =>
      (s.changeConn conn fun c => ({ c with inflow }, woken)).note (.buffered conn ⟨data, part⟩)

/-- What a frame does to the connection it is for. -/
def applyFrame (conn : Nat) (f : Frame) (s : Session) : Session :=
  match f.flag, f.payload with
  | .newMsg, some data => s.pushSegment conn data false
  | .newMsgPart, some data => s.pushSegment conn data true
  | .newConnOk, _ => s.changeConn conn (Conn.answer true)
  | .newConnFail, _ => s.changeConn conn (Conn.answer false)
  | .msgSendOk, _ => s.changeConn conn (Conn.grant f.window)
  | .connClose, _ => s.changeConn conn Conn.closeByPeer
  | _, _ => s

/-- The open connection registered under an id. -/
def addressee (id : Int32) (s : Session) : Option Nat :=
  match s.registry.get? id with
  | none => none
  | some conn =>
    match s.conns[conn]? with
    | none => none
    | some c => if c.closed then none else some conn

/-- Bring a frame to the connection it is for. -/
def route (f : Frame) (s : Session) : Session :=
  match s.addressee f.id with
  | none => s
  | some conn => (s.note (.routed conn f)).applyFrame conn f

/-- Stage a connection that the peer asks for. -/
def stage (id : Int32) (s : Session) : Session :=
  let (s, conn) := s.addConn id .unasked
  let s := s.note (.staged conn)
  match s.staged.push .normal conn with
  | some (staged, woken) => ({ s with staged }).wake woken
  | none => s.shutConn conn

/-- Act on a frame. A returned ping is left with the reader until there is room for it. -/
def dispatch (f : Frame) (s : Session) : Session :=
  let s := ({ s with reader := .between }).note (.dispatched f)
  match f.flag, f.payload with
  | .newConn, _ => s.stage f.id
  | .ping, some payload => s.postOrDrop { frame := .pingReturn payload }
  | .pingReturn, some payload => { s with reader := .handing payload }
  | .ping, none | .pingReturn, none => s
  | _, _ => s.route f

end Session

end StreamMux
