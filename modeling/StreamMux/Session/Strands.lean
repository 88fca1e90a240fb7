import StreamMux.Session.Close

/-! A connection whose users run at the same time. The functions of a session run a call from one wait to the
next as one piece. On several threads others come between any two accesses to what they share: a flag, a
window, the write queue. A strand is such a function before one of these accesses, and each access is a step
of its own. The registry, and the line of those who wait for the turn to write, are left out: who writes has
the turn. -/

namespace StreamMux

/-- Who closes a connection. -/
inductive Closer
  /-- A user on this side, or the reader when a window overflows. -/
  | here
  /-- The peer. -/
  | peer
  /-- The session, as it ends or after the peer has refused the connection. -/
  | session
  deriving DecidableEq

/-- What a function of a connection does next. -/
inductive Strand
  /-- A write looks whether the connection is closed on this side, unless it has sent all. -/
  | write (call : Nat) (data : Bytes) (written : Nat)
  /-- It looks whether the peer has closed. -/
  | writeOn (call : Nat) (data : Bytes) (written : Nat)
  | takeCredit (call : Nat) (data : Bytes) (written : Nat)
  /-- With credit in hand it looks whether the session has ended. -/
  | send (call : Nat) (data : Bytes) (written credit : Nat)
  | queueSegment (call : Nat) (data : Bytes) (written credit : Nat)
  /-- A read looks whether the connection is closed on this side. -/
  | read (call : Nat) (want : Want)
  | takeData (call : Nat) (want : Want)
  /-- A read that has found nothing goes to sleep. -/
  | rest (call : Nat) (want : Want)
  /-- With data in hand it looks again whether the connection is closed on this side. -/
  | report
  /-- It looks whether the peer has closed. -/
  | reportOn
  /-- It looks whether a report is due. -/
  | settle
  /-- With credit to report it looks whether the session has ended. -/
  | sendReport (credit : UInt32)
  | queueReport (credit : UInt32)
  /-- A close marks the connection. -/
  | close (closer : Closer)
  | stopReads (closer : Closer)
  | stopWrites (closer : Closer)
  /-- A close on this side looks whether the peer has closed. -/
  | closeOn
  /-- It looks whether the session has ended. -/
  | sendClose
  | queueClose
  | done
  deriving DecidableEq

/-- The strand is one of a write. -/
def Strand.isWriting : Strand → Bool
  | .write .. | .writeOn .. | .takeCredit .. | .send .. | .queueSegment .. => true
  | _ => false

/-- A frame in the write queue. One of the connection has a place among the frames that the connection queued. -/
structure Said where
  frame : Frame
  place : Option Nat := none
  deriving DecidableEq

def Said.lane (x : Said) : Lane := if x.frame.flag.isPriority then .priority else .normal

/-- A connection with what its strands share. -/
structure Parley where
  maxSegment : Nat
  conn : Conn
  /-- The session has ended. -/
  ended : Bool := false
  outbox : Lanes Said := {}
  /-- The frames of the connection, in the order in which they entered the write queue. -/
  queued : List Frame := []
  /-- The frames that the writer took from the queue. -/
  started : List Said := []
  deriving DecidableEq

namespace Parley

/-- Queue a frame of the connection; a stopped queue refuses. -/
def post (frame : Frame) (p : Parley) : Option Parley :=
  let said : Said := { frame, place := p.queued.length }
  (p.outbox.push said.lane said).map fun outbox => { p with outbox, queued := p.queued ++ [frame] }

/-- The next access of a strand to what is shared. -/
def step (p : Parley) : Strand → Parley × Strand
  | .write call data written =>
    if data.length ≤ written ∨ p.conn.closed then (p, .done) else (p, .writeOn call data written)
  | .writeOn call data written =>
    if p.conn.closing then (p, .done) else (p, .takeCredit call data written)
  | .takeCredit call data written =>
    match p.conn.outflow.acquire (.call call) (min (data.length - written) p.maxSegment) with
    | (outflow, none) => ({ p with conn := { p.conn with outflow } }, .takeCredit call data written)
    | (outflow, some none) => ({ p with conn := { p.conn with outflow } }, .done)
    | (outflow, some (some credit)) => ({ p with conn := { p.conn with outflow } }, .send call data written credit)
  | .send call data written credit =>
    if p.ended then (p, .done) else (p, .queueSegment call data written credit)
  | .queueSegment call data written credit =>
    let frame := Frame.data p.conn.id ((data.drop written).take credit) (written + credit < data.length)
    match p.post frame with
    | some p => (p, .write call data (written + credit))
    | none => (p, .done)
  | .read call want => if p.conn.closed then (p, .done) else (p, .takeData call want)
  | .takeData call want =>
    match p.conn.inflow.look (.call call) want with
    | (inflow, none) => ({ p with conn := { p.conn with inflow } }, .rest call want)
    | (inflow, some _) => ({ p with conn := { p.conn with inflow } }, .report)
  | .rest call want =>
    ({ p with conn := { p.conn with inflow := p.conn.inflow.settle (.call call) } }, .takeData call want)
  | .report => if p.conn.closed then (p, .done) else (p, .reportOn)
  | .reportOn => if p.conn.closing then (p, .done) else (p, .settle)
  | .settle =>
    match p.conn.inflow.takeCredit p.maxSegment with
    | (inflow, none) => ({ p with conn := { p.conn with inflow } }, .done)
    | (inflow, some credit) => ({ p with conn := { p.conn with inflow } }, .sendReport credit)
  | .sendReport credit => if p.ended then (p, .done) else (p, .queueReport credit)
  | .queueReport credit => ((p.post (.sendOk p.conn.id credit)).getD p, .done)
  | .close .here =>
    if p.conn.closed then (p, .done)
    else ({ p with conn := { p.conn with closed := true } }, .stopReads .here)
  | .close .peer => ({ p with conn := { p.conn with closing := true } }, .stopReads .peer)
  | .close .session => ({ p with conn := { p.conn with closed := true } }, .stopReads .session)
  | .stopReads closer =>
    ({ p with conn := { p.conn with inflow := p.conn.inflow.stop.1 } }, .stopWrites closer)
  | .stopWrites closer =>
    ({ p with conn := { p.conn with outflow := p.conn.outflow.close.1 } },
      if closer = .here then .closeOn else .done)
  | .closeOn => if p.conn.closing then (p, .done) else (p, .sendClose)
  | .sendClose => if p.ended then (p, .done) else (p, .queueClose)
  | .queueClose => ((p.post (.control .connClose p.conn.id)).getD p, .done)
  | .done => (p, .done)

/-- The writer takes a frame, if there is one. -/
def start (p : Parley) : Parley :=
  match p.outbox.pop with
  | (outbox, some (some said)) => { p with outbox, started := p.started ++ [said] }
  | _ => p

/-- So many steps of a strand that nobody disturbs. -/
def run : Nat → Parley → Strand → Parley × Strand
  | 0, p, x => (p, x)
  | k + 1, p, x => (p.step x).1.run k (p.step x).2

end Parley

/-- A connection with the strands that run on it. -/
structure Crowd where
  parley : Parley
  strands : List Strand := []
  deriving DecidableEq

namespace Crowd

/-- A connection of which nothing was said, and that nobody uses yet. -/
def fresh (maxSegment : Nat) (conn : Conn) : Crowd := { parley := { maxSegment, conn } }

inductive Act
  /-- A strand makes its next access. -/
  | run (i : Nat)
  /-- A write gets its turn, if nobody else has it. -/
  | write (call : Nat) (data : Bytes)
  | read (call : Nat) (want : Want)
  | close (closer : Closer)
  /-- A call that waits is cancelled. -/
  | leave (i : Nat)
  /-- A segment of the peer comes in. -/
  | segment (data : Bytes) (part : Bool)
  /-- The peer gives credit. -/
  | grant (credit : UInt32)
  /-- A frame of another connection is queued. -/
  | others (frame : Frame)
  /-- The session is marked as ended. -/
  | ends
  /-- It stops the write queue, and drops what is in it. -/
  | stop
  /-- The writer takes a frame. -/
  | start
  deriving DecidableEq

/-- A call goes away from where it waits. -/
def drop (i : Nat) (c : Crowd) : Crowd :=
  let p := c.parley
  match c.strands[i]? with
  | some (.takeCredit call ..) =>
    let conn := { p.conn with outflow := (p.conn.outflow.leave (Fiber.call call)).1 }
    { parley := { p with conn }, strands := c.strands.set i .done }
  | some (.takeData call _) | some (.rest call _) =>
    let conn := { p.conn with inflow := (p.conn.inflow.leave (Fiber.call call)).1 }
    { parley := { p with conn }, strands := c.strands.set i .done }
  | _ => c

def act (a : Act) (c : Crowd) : Crowd :=
  let p := c.parley
  match a with
  | .run i =>
    match c.strands[i]? with
    | some x => { parley := (p.step x).1, strands := c.strands.set i (p.step x).2 }
    | none => c
  | .write call data =>
    if c.strands.any Strand.isWriting then c else { c with strands := c.strands ++ [.write call data 0] }
  | .read call want => { c with strands := c.strands ++ [.read call want] }
  | .close closer => { c with strands := c.strands ++ [.close closer] }
  | .leave i => c.drop i
  | .segment data part =>
    match p.conn.inflow.write p.conn.id data part with
    | .ok (inflow, _) => { c with parley := { p with conn := { p.conn with inflow } } }
    | .error _ => c
  | .grant credit => { c with parley := { p with conn := (p.conn.grant credit).1 } }
  | .others frame =>
    let said : Said := { frame }
    { c with parley := { p with outbox := (p.outbox.push said.lane said).getD p.outbox } }
  | .ends => { c with parley := { p with ended := true } }
  | .stop => { c with parley := { p with outbox := { stopped := true } } }
  | .start => { c with parley := p.start }

def acts (as : List Act) (c : Crowd) : Crowd := as.foldl (fun c a => c.act a) c

end Crowd

end StreamMux
