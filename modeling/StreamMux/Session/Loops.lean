import StreamMux.Session.Dispatch

/-! The five loops of a session. Each function is one turn of a loop, from one place where it may have
to wait to the next, and answers whether the loop goes on without waiting. A loop that could go on
although the session has ended may see either first: `first` tells that it sees the end. -/

namespace StreamMux

namespace Session

/-! ### The writer -/

/-- The writer shuts its end of the link. -/
def endWriter (s : Session) : Session :=
  { s with
    writer := .over
    outbox := (s.outbox.leave .writer).1
    outlet := { s.outlet with shut := true } }

/-- Take the next frame from the queue. -/
def nextFrame (s : Session) : Session × Bool :=
  match s.outbox.pop .writer with
  | (outbox, none) => ({ s with outbox }, false)
  | (outbox, some none) => (({ s with outbox }).endWriter, false)
  | (outbox, some (some out)) =>
    let s := ({ s with outbox }).note (.started out)
    match out.frame.encode s.settings.maxSegment with
    | .ok bytes => ({ s with writer := .writing bytes }, true)
    | .error _ => (s.close.endWriter, false)

/-- Hand as much of a frame to the link as it takes. -/
def writeSome (rest : Bytes) (s : Session) : Session × Bool :=
  let chunk := s.outlet.accepted rest
  let left := rest.drop chunk.length
  if s.outlet.broken then (s.close.endWriter, false)
  else if chunk = [] then if s.closed then (s.endWriter, false) else (s, false)
  else
    (({ s with
        writer := if left = [] then .idle else .writing left
        outlet := { s.outlet with held := s.outlet.held ++ chunk } }).note (.wrote chunk), true)

def writerTurn (first : Bool) (s : Session) : Session × Bool :=
  match s.writer with
  | .over => (s, false)
  | .idle => if s.closed then (s.endWriter, false) else s.nextFrame
  | .writing rest => if s.closed ∧ first then (s.endWriter, false) else s.writeSome rest

/-! ### The reader -/

def endReader (s : Session) : Session := { s with reader := .over }

/-- Start reading a frame. -/
def startFrame (s : Session) : Session × Bool :=
  let (s, wall) := s.readWall
  ({ s with
      reader := .reading .start
      throughput := s.throughput.startRead wall.toNat }, true)

/-- A whole frame has come in. -/
def receive (f : Frame) (s : Session) : Session :=
  ({ s with throughput := s.throughput.add f.bytes.length, idleTicks := 0 }).dispatch f

/-- Read from what has arrived. A fault, and the end of the stream, end the session. -/
def readSome (decoder : Decoder) (s : Session) : Session × Bool :=
  match decoder.run s.settings.maxSegment s.inlet.bytes with
  | .frame f rest => (({ s with inlet := { s.inlet with bytes := rest } }).receive f, true)
  | .error _ rest => (({ s with inlet := { s.inlet with bytes := rest } }).close.endReader, false)
  | .short decoder =>
    let s := { s with inlet := { s.inlet with bytes := [] }, reader := .reading decoder }
    if s.closed then (s.endReader, false)
    else if s.inlet.ending.isSome then (s.close.endReader, false)
    else (s, false)

/-- Pass a returned ping on, if there is room. -/
def handPong (payload : Bytes) (s : Session) : Session × Bool :=
  if s.pongs.length < s.settings.pongRoom then
    (({ s with pongs := s.pongs ++ [payload], reader := .between }).wake [.returns], true)
  else if s.closed then ({ s with reader := .between }, true)
  else (s, false)

def readerTurn (first : Bool) (s : Session) : Session × Bool :=
  match s.reader with
  | .over => (s, false)
  | .between => if s.closed then (s.endReader, false) else s.startFrame
  | .reading decoder => if s.closed ∧ first then (s.endReader, false) else s.readSome decoder
  | .handing payload =>
    if s.closed ∧ first then ({ s with reader := .between }, true) else s.handPong payload

/-! ### The acceptor -/

def endAcceptor (s : Session) : Session :=
  { s with acceptor := .over, staged := (s.staged.leave .acceptor).1 }

/-- Register a connection that the peer asked for, or refuse it if its id is in use. -/
def decideConn (conn : Nat) (s : Session) : Session × Bool :=
  match s.conns[conn]? with
  | none => (s, true)
  | some c =>
    match s.registry.insertNew c.id conn with
    | some registry =>
      ((({ s with registry, acceptor := .publishing conn }).note (.registered conn)).note
        (.decided conn true), true)
    | none =>
      ((((s.shutConn conn).note (.decided conn false)).postOrDrop
        { frame := .control .newConnFail c.id, conn }), true)

/-- Take the next staged connection. -/
def nextStaged (s : Session) : Session × Bool :=
  match s.staged.pop .acceptor with
  | (staged, none) => ({ s with staged }, false)
  | (staged, some none) => (({ s with staged }).endAcceptor, false)
  | (staged, some (some conn)) => ({ s with staged }).decideConn conn

/-- Confirm a connection to the peer; the acceptor ends if the session has. -/
def confirm (conn : Nat) (id : Int32) (s : Session) : Session × Bool :=
  match s.post { frame := .control .newConnOk id, conn } with
  | some s => ({ s with acceptor := .idle }, true)
  | none => (s.endAcceptor, false)

/-- Hand a registered connection to the calls that accept, if there is room, and confirm it. -/
def publish (conn : Nat) (s : Session) : Session × Bool :=
  if s.published.length < s.settings.backlog then
    let s := ({ s with published := s.published ++ [conn] }).note (.published conn)
    let s := s.wake ((s.acceptLock.holder.map Fiber.call).toList)
    match s.conns[conn]? with
    | some c => s.confirm conn c.id
    | none => (s, false)
  else if s.closed then (s.endAcceptor, false)
  else (s, false)

def acceptorTurn (first : Bool) (s : Session) : Session × Bool :=
  match s.acceptor with
  | .over => (s, false)
  | .idle => if s.closed then (s.endAcceptor, false) else s.nextStaged
  | .publishing conn => if s.closed ∧ first then (s.endAcceptor, false) else s.publish conn

/-! ### The pinger -/

def endPinger (s : Session) : Session := { s with pinger := .over }

/-- Send a ping with the time on the wall clock. -/
def sendPing (s : Session) : Session :=
  let (s, wall) := s.readWall
  s.postOrDrop { frame := .ping wall.render }

/-- One more interval without a returned ping, and without a frame from the peer. -/
def countTick (s : Session) : Session :=
  ({ s with
    misses := s.misses + 1
    idleTicks := if s.kind = LinkKind.kcp then s.idleTicks + 1 else s.idleTicks }).note .ticked

/-- The link counts as dead: too many pings were missed, or over KCP it was silent for too long. -/
def isDead (s : Session) : Bool :=
  s.settings.pingTimeoutMisses ≤ s.misses ∨ (s.kind = .kcp ∧ s.settings.kcpIdleLimit ≤ s.idleTicks)

/-- Wait for the end of an interval. -/
def awaitTick (due : Moment) (s : Session) : Session :=
  ({ s with pinger := .waiting due }).setTimer .pinger

/-- An interval is over. -/
def tick (due : Moment) (s : Session) : Session × Bool :=
  let s := s.countTick
  if s.isDead then (s.close.endPinger, false)
  else (s.sendPing.awaitTick (Timer.following s.now due s.settings.pingInterval), true)

def pingerTurn (s : Session) : Session × Bool :=
  match s.pinger with
  | .over => (s, false)
  | .starting => (s.sendPing.awaitTick (s.now + s.settings.pingInterval), true)
  | .waiting due =>
    if s.closed then (s.endPinger, false)
    else if Timer.reached s.now due then s.tick due
    else (s, false)

/-! ### The returned pings -/

def endReturns (s : Session) : Session := { s with returns := .over }

/-- Half the time since the stamp of a returned ping is a sample of the latency. -/
def measure (payload : Bytes) (s : Session) : Session :=
  match Stamp.parse? payload with
  | none => s
  | some sent =>
    let (s, wall) := s.readWall
    match Stamp.halfSpan? sent wall with
    | none => s
    | some half => { s with latency := s.latency.report half }

/-- The reader goes on if it waits for room. -/
def wakeReader (s : Session) : Session :=
  match s.reader with
  | .handing _ => s.wake [.reader]
  | _ => s

/-- Handle a returned ping: the peer is alive, whatever the stamp says. -/
def handlePong (payload : Bytes) (rest : List Bytes) (s : Session) : Session :=
  ((({ s with pongs := rest, misses := 0 }).wakeReader).note (.returned payload)).measure payload

def returnsTurn (first : Bool) (s : Session) : Session × Bool :=
  match s.returns with
  | .over => (s, false)
  | .waiting =>
    if s.closed ∧ first then (s.endReturns, false)
    else
      match s.pongs with
      | payload :: rest => (s.handlePong payload rest, true)
      | [] => if s.closed then (s.endReturns, false) else (s, false)

end Session

end StreamMux
