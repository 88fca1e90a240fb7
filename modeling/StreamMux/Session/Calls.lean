import StreamMux.Session.Close

/-! The calls on a session and on its connections: open, accept, read and write. Each function is one
turn of a call, from one place where it may have to wait to the next, and answers whether the call
goes on without waiting. A cancelled call gives back what it holds and leaves what it did. -/

namespace StreamMux

namespace Session

/-! ### Open -/

/-- Register a connection under the id drawn for it, and ask the peer for it. While no id is free the
call goes on looking for one. After each round of the ids it lets others have a turn; a search that never pauses
would keep its thread until another thread frees an id. -/
def requestUnder (drawn : Option (Int32 × IdSource)) (call : Nat) (s : Session) : Session × Bool :=
  match drawn with
  | none => (s, true)
  | some (id, ids) =>
    let (s, conn) := ({ s with ids }).addConn id (.awaited call)
    match s.registry.insertNew id conn with
    | none => (s.finish call (.failed .sessionClosed), false)
    | some registry =>
      match (({ s with registry }).note (.registered conn)).post
          { frame := .control .newConn id, conn } with
      | none => (s.finish call (.failed .sessionClosed), false)
      | some s =>
        ((s.setStage call (.answering conn (s.now + s.settings.openTimeout))).setTimer (.call call), true)

/-- Ask the peer for a connection under a free id. -/
def request (call : Nat) (s : Session) : Session × Bool :=
  s.requestUnder (s.ids.draw s.registry.contains) call

/-- A refused connection is closed and its id is free again. -/
def refuse (conn : Nat) (s : Session) : Session :=
  match s.conns[conn]? with
  | none => s
  | some c => ({ s with registry := (s.registry.delete c.id).1 }).shutConn conn

/-- Look for the answer of the peer, then at the time. -/
def awaitAnswer (call conn : Nat) (due : Moment) (s : Session) : Session × Bool :=
  match Option.map Conn.reply s.conns[conn]? with
  | some (.given true) => (s.finish call (.conn conn), false)
  | some (.given false) => ((s.refuse conn).finish call (.failed .connectionRefused), false)
  | some (.awaited _) =>
    if Timer.reached s.now due then (s.finish call (.failed .openTimeout), false)
    else if s.closed then (s.finish call (.failed .sessionClosed), false)
    else (s, false)
  | _ => (s.finish call (.failed .sessionClosed), false)

/-! ### Accept -/

/-- The acceptor goes on if it waits for room. -/
def wakeAcceptor (s : Session) : Session :=
  match s.acceptor with
  | .publishing _ => s.wake [.acceptor]
  | _ => s

/-- Give up the turn at the accepted connections, or the place in line for it. -/
def leaveAccept (call : Nat) (s : Session) : Session :=
  let (acceptLock, next) := s.acceptLock.leave call
  ({ s with acceptLock }).wake (next.map Fiber.call)

/-- Take an accepted connection, if it is the call's turn and there is one. -/
def awaitConn (call : Nat) (s : Session) : Session × Bool :=
  match s.acceptLock.holder == some call, s.published with
  | true, conn :: rest =>
    (((({ s with published := rest }).wakeAcceptor).leaveAccept call).finish call (.conn conn), false)
  | _, _ =>
    if s.closed then ((s.leaveAccept call).finish call (.failed .acceptClosed), false) else (s, false)

/-! ### Read -/

/-- Take data of a connection, and report it if that is due. -/
def awaitData (call conn : Nat) (want : Want) (s : Session) : Session × Bool :=
  match s.conns[conn]? with
  | none => (s, false)
  | some c =>
    match c.inflow.take (.call call) want with
    | (inflow, none) => (s.changeConn conn fun c => ({ c with inflow }, []), false)
    | (inflow, some taken) =>
      let s := (s.changeConn conn fun c => ({ c with inflow }, [])).note (.handedOut conn taken)
      ((s.reportCredit conn).finish call (.taken taken), false)

/-! ### Write -/

/-- Give up the turn on a connection, or the place in line for it. -/
def leaveWrite (call conn : Nat) (s : Session) : Session :=
  s.changeConn conn fun c =>
    let (writeLock, next) := c.writeLock.leave call
    ({ c with writeLock }, next.map Fiber.call)

/-- A write ends with an outcome. -/
def finishWrite (call conn : Nat) (outcome : Outcome) (s : Session) : Session :=
  (s.leaveWrite call conn).finish call outcome

/-- Queue the segment that the credit allows. -/
def sendSegment (call conn : Nat) (id : Int32) (data : Bytes) (written credit : Nat) (s : Session) :
    Session × Bool :=
  let part := written + credit < data.length
  let frame := Frame.data id ((data.drop written).take credit) part
  let s := s.note (.spent conn call credit)
  match s.post { frame, conn, call } with
  | some s => (s.setStage call (.sending (written + credit)), true)
  | none => (s.finishWrite call conn (.failed .sessionClosed), false)

/-- Take credit for the next segment. -/
def awaitCredit (call conn : Nat) (data : Bytes) (written : Nat) (s : Session) : Session × Bool :=
  match s.conns[conn]? with
  | none => (s, false)
  | some c =>
    let want := min (data.length - written) s.settings.maxSegment
    let (outflow, credit) := c.outflow.acquire (.call call) want
    let s := s.changeConn conn fun c => ({ c with outflow }, [])
    match credit with
    | none => (s.setStage call (.crediting written), false)
    | some none => (s.finishWrite call conn (.failed (.connectionClosed c.id)), false)
    | some (some credit) => s.sendSegment call conn c.id data written credit

/-- Go on with a write, unless it is done or the connection is closed on either side. -/
def sendOn (call conn : Nat) (data : Bytes) (written : Nat) (s : Session) : Session × Bool :=
  match s.conns[conn]? with
  | none => (s, false)
  | some c =>
    if data.length ≤ written then (s.finishWrite call conn (.written written), false)
    else if c.closed ∨ c.closing then
      (s.finishWrite call conn (.failed (.connectionClosed c.id)), false)
    else s.awaitCredit call conn data written

/-! ### Turns -/

/-- The first turn of a call. -/
def beginCall (call : Nat) (request : Request) (s : Session) : Session × Bool :=
  match request with
  | .openConn =>
    if s.closed then (s.finish call (.failed .sessionClosed), false) else s.request call
  | .accept =>
    if s.closed then (s.finish call (.failed .acceptClosed), false)
    else (({ s with acceptLock := s.acceptLock.request call }).setStage call .accepting, true)
  | .read conn _ =>
    match s.conns[conn]? with
    | none => (s, false)
    | some c =>
      if c.closed then (s.finish call (.failed (.connectionClosed c.id)), false)
      else (s.setStage call .reading, true)
  | .write conn _ =>
    ((s.changeConn conn fun c => ({ c with writeLock := c.writeLock.request call }, [])).setStage call
      .inLine, true)

/-- The place in the line of a connection's writes has come up. -/
def holdsWriteLock (call conn : Nat) (s : Session) : Bool :=
  s.conns[conn]?.any (·.writeLock.holder = some call)

/-- A turn of a call that has begun. -/
def continueCall (first : Bool) (call : Nat) (c : Call) (s : Session) : Session × Bool :=
  match c.stage, c.request with
  | .answering conn due, _ =>
    if s.closed ∧ first then (s.finish call (.failed .sessionClosed), false)
    else s.awaitAnswer call conn due
  | .accepting, _ =>
    if s.closed ∧ first then ((s.leaveAccept call).finish call (.failed .acceptClosed), false)
    else s.awaitConn call
  | .reading, .read conn want => s.awaitData call conn want
  | .inLine, .write conn _ =>
    if s.holdsWriteLock call conn then (s.setStage call (.sending 0), true) else (s, false)
  | .sending written, .write conn data => s.sendOn call conn data written
  | .crediting written, .write conn data => s.awaitCredit call conn data written
  | _, _ => (s, false)

/-- A cancelled call gives back what it holds and is forgotten. -/
def dropCall (call : Nat) (c : Call) (s : Session) : Session :=
  let s :=
    match c.stage, c.request with
    | .accepting, _ => s.leaveAccept call
    | .reading, .read conn _ =>
      s.changeConn conn fun c =>
        let (inflow, woken) := c.inflow.leave (Fiber.call call)
        ({ c with inflow }, woken)
    | .crediting _, .write conn _ =>
      (s.changeConn conn fun c =>
        let (outflow, woken) := c.outflow.leave (Fiber.call call)
        ({ c with outflow }, woken)).leaveWrite call conn
    | .inLine, .write conn _ | .sending _, .write conn _ => s.leaveWrite call conn
    | _, _ => s
  (s.setStage call .dropped).reap

def callTurn (first : Bool) (call : Nat) (s : Session) : Session × Bool :=
  match s.calls[call]? with
  | none => (s, false)
  | some c =>
    if c.isOver then (s, false)
    else if c.isGivenUp then (s.dropCall call c, false)
    else if c.stage = .fresh then s.beginCall call c.request
    else s.continueCall first call c

end Session

end StreamMux
