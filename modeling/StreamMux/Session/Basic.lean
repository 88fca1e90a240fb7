import StreamMux.Wire.Decoder
import StreamMux.Link
import StreamMux.Ids
import StreamMux.Registry
import StreamMux.Estimate.Throughput
import StreamMux.Estimate.Latency
import StreamMux.Time.Stamp
import StreamMux.Time.Timer
import StreamMux.Waiting.Lock
import StreamMux.Waiting.Desk
import StreamMux.Flow.Queue
import StreamMux.Flow.Receive
import StreamMux.Flow.Send

/-! The state of a session: its connections, its queues, the ends of its link, and where each of its
fibers stands. Connections and calls are named by the order in which they were made, so a connection
keeps its name when its id is used again. The trace records what the session did. -/

namespace StreamMux

/-! ### Fibers -/

/-- What runs in a session: its five loops, and the calls by number. -/
inductive Fiber
  /-- Writes queued frames to the link. -/
  | writer
  /-- Reads frames from the link and acts on them. -/
  | reader
  /-- Registers the connections that the peer asks for. -/
  | acceptor
  /-- Sends the keep-alive pings. -/
  | pinger
  /-- Handles the pings that came back. -/
  | returns
  | call (k : Nat)
  deriving DecidableEq

inductive WriterStage
  | idle
  /-- In the middle of a frame. -/
  | writing (rest : Bytes)
  | over
  deriving DecidableEq

inductive ReaderStage
  /-- Between two frames. -/
  | between
  | reading (decoder : Decoder)
  /-- Waits for room among the returned pings. -/
  | handing (payload : Bytes)
  | over
  deriving DecidableEq

inductive AcceptorStage
  | idle
  /-- Waits for room among the accepted connections. -/
  | publishing (conn : Nat)
  | over
  deriving DecidableEq

inductive PingerStage
  | starting
  | waiting (due : Moment)
  | over
  deriving DecidableEq

inductive ReturnsStage
  | waiting
  | over
  deriving DecidableEq

/-! ### Calls -/

/-- What a call asks of the session or of one of its connections. -/
inductive Request
  | openConn
  | accept
  | read (conn : Nat) (want : Want)
  | write (conn : Nat) (data : Bytes)
  deriving DecidableEq

/-- The call is one on the session itself, and keeps its handle. -/
def Request.holdsHandle : Request → Bool
  | .openConn | .accept => true
  | _ => false

/-- What a call gave. -/
inductive Outcome
  | conn (conn : Nat)
  | taken (taken : Taken)
  | written (count : Nat)
  | failed (cause : MuxError)
  deriving DecidableEq

inductive CallStage
  | fresh
  /-- An open waits for the peer's answer until the moment given. -/
  | answering (conn : Nat) (due : Moment)
  /-- An accept has asked for its turn at the accepted connections. -/
  | accepting
  /-- A read waits for data. -/
  | reading
  /-- A write has asked for its turn on the connection. -/
  | inLine
  /-- A write has sent so much, and looks whether it may go on. -/
  | sending (written : Nat)
  /-- A write has sent so much, and waits for credit. -/
  | crediting (written : Nat)
  | over (outcome : Outcome)
  /-- The call was cancelled. -/
  | dropped
  deriving DecidableEq

structure Call where
  request : Request
  stage : CallStage := .fresh
  cancelled : Bool := false
  deriving DecidableEq

namespace Call

/-- The call has ended, with an outcome or without. -/
def isOver (c : Call) : Bool :=
  match c.stage with
  | .over _ | .dropped => true
  | _ => false

/-- The call was given up, and heeds it. A write that has queued its last segment waits for nothing more, so
that it ends as if it had not been given up. -/
def isGivenUp (c : Call) : Bool :=
  match c.stage, c.request with
  | .sending written, .write _ data => c.cancelled && decide (written < data.length)
  | _, _ => c.cancelled

theorem isGivenUp_of_not_sending {c : Call} (h : ∀ written, c.stage ≠ .sending written) :
    c.isGivenUp = c.cancelled := by
  unfold isGivenUp
  split
  · exact absurd ‹_› (h _)
  · rfl

theorem isGivenUp_of_live {c : Call} (h : c.cancelled = false) : c.isGivenUp = false := by
  unfold isGivenUp
  split <;> simp [h]

/-- The call waits for something that the end of the session cuts short. -/
def isCancellable (c : Call) : Bool :=
  match c.stage with
  | .answering _ _ | .accepting => true
  | _ => false

end Call

/-! ### Connections -/

/-- The peer's answer to the request for a connection. -/
inductive Reply
  /-- The peer asked for the connection. -/
  | unasked
  /-- The call with this number waits for the answer. -/
  | awaited (call : Nat)
  | given (accepted : Bool)
  /-- The session ended first. -/
  | lost
  deriving DecidableEq

structure Conn where
  id : Int32
  inflow : Inflow Fiber
  outflow : Outflow Fiber
  /-- Held for a whole write, so that the segments of two messages do not mix. -/
  writeLock : Lock Nat := {}
  /-- Closed on this side. -/
  closed : Bool := false
  /-- Closed by the peer. -/
  closing : Bool := false
  reply : Reply := .unasked
  deriving DecidableEq

namespace Conn

/-- A new connection; both windows have the size that the settings give. -/
def make (settings : Settings) (id : Int32) (reply : Reply) : Conn where
  id
  inflow := .withCapacity settings.receiveWindow.toNat
  outflow := .withCredit settings.receiveWindow
  reply

/-- Stop both windows. -/
def stopWindows (c : Conn) : Conn × List Fiber :=
  let (inflow, readers) := c.inflow.stop
  let (outflow, writers) := c.outflow.close
  ({ c with inflow, outflow }, readers ++ writers)

/-- Close without a word to the peer; an answer that is still awaited is lost. -/
def shutdown (c : Conn) : Conn × List Fiber :=
  let (c, woken) := { c with closed := true }.stopWindows
  match c.reply with
  | .awaited k => ({ c with reply := .lost }, woken ++ [.call k])
  | _ => (c, woken)

/-- The peer has closed. -/
def closeByPeer (c : Conn) : Conn × List Fiber := { c with closing := true }.stopWindows

/-- Take the peer's answer, if it is awaited. -/
def answer (accepted : Bool) (c : Conn) : Conn × List Fiber :=
  match c.reply with
  | .awaited k => ({ c with reply := .given accepted }, [.call k])
  | _ => (c, [])

/-- The peer gives credit. -/
def grant (credit : UInt32) (c : Conn) : Conn × List Fiber :=
  let (outflow, woken) := c.outflow.grant credit
  ({ c with outflow }, woken)

end Conn

/-! ### The ends of the link -/

/-- Why no more bytes will come in. -/
inductive Ending
  | closed
  | failed
  deriving DecidableEq

/-- The reading end: the bytes that have arrived, and what follows them. -/
structure Inlet where
  bytes : Bytes := []
  ending : Option Ending := none
  deriving DecidableEq

/-- The writing end: the bytes that the link has taken over and the far end has not. -/
structure Outlet where
  held : Bytes := []
  /-- Bytes that the link takes over at most, if there is a bound. -/
  capacity : Option Nat := none
  /-- Every write fails. -/
  broken : Bool := false
  /-- Nothing more will be written. -/
  shut : Bool := false
  deriving DecidableEq

/-- The part of a text that the link has room for now. -/
def Outlet.accepted (o : Outlet) (text : Bytes) : Bytes :=
  match o.capacity with
  | none => text
  | some capacity => text.take (capacity - o.held.length)

/-- The link takes the front of a text and leaves the rest. -/
theorem Outlet.accepted_append (o : Outlet) (text : Bytes) :
    o.accepted text ++ text.drop (o.accepted text).length = text := by
  unfold Outlet.accepted
  split
  · simp
  · rename_i capacity _
    rw [List.length_take]
    rcases Nat.le_total (capacity - o.held.length) text.length with hle | hle
    · rw [Nat.min_eq_left hle, List.take_append_drop]
    · rw [List.take_of_length_le hle, Nat.min_eq_right hle]
      simp

/-! ### The session -/

/-- A frame in the write queue, with the connection and the write that it was queued for. -/
structure Outgoing where
  frame : Frame
  conn : Option Nat := none
  call : Option Nat := none
  deriving DecidableEq

/-- What a session did. -/
inductive Event
  /-- Bytes came in. -/
  | arrived (bytes : Bytes)
  /-- A frame entered the write queue. -/
  | queued (out : Outgoing)
  /-- The writer took a frame from the queue. -/
  | started (out : Outgoing)
  /-- The link took bytes over. -/
  | wrote (bytes : Bytes)
  /-- The reader acted on a frame. -/
  | dispatched (frame : Frame)
  /-- A frame reached a connection. -/
  | routed (conn : Nat) (frame : Frame)
  /-- A receive window took a segment. -/
  | buffered (conn : Nat) (segment : Segment)
  /-- A call was given data of a connection, or its end. -/
  | handedOut (conn : Nat) (taken : Taken)
  /-- A write took credit. -/
  | spent (conn call credit : Nat)
  /-- The peer asked for a connection. -/
  | staged (conn : Nat)
  /-- A connection was entered under its id. -/
  | registered (conn : Nat)
  /-- The acceptor decided on a connection that the peer asked for. -/
  | decided (conn : Nat) (accepted : Bool)
  /-- A connection was made ready for a call that accepts it. -/
  | published (conn : Nat)
  /-- An interval of the pinger was over. -/
  | ticked
  /-- A ping that came back was handled. -/
  | returned (payload : Bytes)
  | closed
  /-- A call ended with an outcome. -/
  | finished (call : Nat) (outcome : Outcome)
  deriving DecidableEq

structure Session where
  settings : Settings
  kind : LinkKind
  address : Option String
  inlet : Inlet
  outlet : Outlet
  /-- The time of the session's own clock. -/
  now : Moment
  /-- The next reading of the wall clock. Two readings are never the same. -/
  wall : Stamp
  /-- The handle has not been dropped. -/
  handle : Bool
  closed : Bool
  ids : IdSource
  registry : Registry Nat
  /-- Every connection there has been. -/
  conns : List Conn
  outbox : Queue Fiber Outgoing
  /-- Connections that the peer asked for and that are not yet registered. -/
  staged : Queue Fiber Nat
  /-- Connections that wait for a call that accepts them. -/
  published : List Nat
  /-- Whose turn it is to take one of them. -/
  acceptLock : Lock Nat
  /-- Payloads of returned pings that wait to be handled. -/
  pongs : List Bytes
  /-- Ping intervals since the last returned ping. -/
  misses : Nat
  /-- Ping intervals since the last frame that came in. -/
  idleTicks : Nat
  latency : Latency
  throughput : Throughput
  writer : WriterStage
  reader : ReaderStage
  acceptor : AcceptorStage
  pinger : PingerStage
  returns : ReturnsStage
  /-- Every call there has been. -/
  calls : List Call
  /-- The fibers that have set a timer, in the order in which they last did. -/
  timers : List Fiber
  /-- The fibers to run, in the order in which they became ready. -/
  ready : List Fiber
  /-- What the session did, the latest first. -/
  trace : List Event

namespace Session

/-- A session at its start, with all its loops about to run. -/
def start (settings : Settings) (kind : LinkKind) (address : Option String) (capacity : Option Nat)
    (wall : Stamp) : Session where
  settings
  kind
  address
  inlet := {}
  outlet := { capacity }
  now := 0
  wall
  handle := true
  closed := false
  ids := {}
  registry := {}
  conns := []
  outbox := .empty
  staged := .empty
  published := []
  acceptLock := {}
  pongs := []
  misses := 0
  idleTicks := 0
  latency := {}
  throughput := .forSegments settings.maxSegment
  writer := .idle
  reader := .between
  acceptor := .idle
  pinger := .starting
  returns := .waiting
  calls := []
  timers := []
  ready := [.writer, .reader, .acceptor, .pinger, .returns]
  trace := []

/-- Record an event. -/
def note (e : Event) (s : Session) : Session := { s with trace := e :: s.trace }

/-- Make fibers ready that are not so already. -/
def wake (fibers : List Fiber) (s : Session) : Session := { s with ready := joinLine s.ready fibers }

/-- Read the wall clock. -/
def readWall (s : Session) : Session × Stamp := ({ s with wall := s.wall + 1 }, s.wall)

/-- Change a connection and wake whom the change wakes. -/
def changeConn (conn : Nat) (change : Conn → Conn × List Fiber) (s : Session) : Session :=
  match s.conns[conn]? with
  | none => s
  | some c =>
    let (c, woken) := change c
    ({ s with conns := s.conns.set conn c }).wake woken

/-- Make a connection; its name is the number of those before it. -/
def addConn (id : Int32) (reply : Reply) (s : Session) : Session × Nat :=
  ({ s with conns := s.conns ++ [.make s.settings id reply] }, s.conns.length)

/-- Queue a frame for the writer. A closed session refuses. -/
def post (out : Outgoing) (s : Session) : Option Session :=
  if s.closed then none
  else
    let lane := if out.frame.flag.isPriority then Lane.priority else Lane.normal
    (s.outbox.push lane out).map fun (outbox, woken) =>
      (({ s with outbox }).note (.queued out)).wake woken

/-- Queue a frame, or drop it if the session is closed. -/
def postOrDrop (out : Outgoing) (s : Session) : Session := (s.post out).getD s

/-- A fiber has set its timer. -/
def setTimer (fiber : Fiber) (s : Session) : Session :=
  { s with timers := s.timers.erase fiber ++ [fiber] }

/-- Name the stage that a call has reached. -/
def setStage (call : Nat) (stage : CallStage) (s : Session) : Session :=
  { s with calls := s.calls.modify call fun c => { c with stage } }

end Session

end StreamMux
