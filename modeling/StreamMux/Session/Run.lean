import StreamMux.Session.Loops
import StreamMux.Session.Calls

/-! The moves of a session. Its user asks, cancels and closes, the far end of the link delivers and
takes bytes, time passes, and any fiber that is ready takes a turn. A run is a sequence of moves, so
what holds of every run holds of every order in which the fibers are scheduled. -/

namespace StreamMux

inductive Move
  /-- The user starts a call. -/
  | ask (request : Request)
  /-- The user gives a call up. -/
  | cancel (call : Nat)
  /-- The user closes the session. -/
  | close
  /-- The user drops the handle of the session. -/
  | dropHandle
  /-- The user closes a connection. -/
  | closeConn (conn : Nat)
  /-- Bytes come in. -/
  | deliver (bytes : Bytes)
  /-- Nothing will come in after the bytes that have. -/
  | endInput (ending : Ending)
  /-- The far end takes bytes. -/
  | takeOutput (count : Nat)
  /-- The link changes how many bytes it holds at most. -/
  | resizeOutput (capacity : Option Nat)
  /-- From now on writing to the link fails. -/
  | breakOutput
  | advance (span : Duration)
  /-- A fiber takes a turn; if the session has ended meanwhile, it sees that first or not. -/
  | run (fiber : Fiber) (first : Bool)
  deriving DecidableEq

namespace Session

/-! ### The user -/

/-- The connection that a call gave to the user. -/
def given? (call : Nat) (s : Session) : Option Nat :=
  match Option.map Call.stage s.calls[call]? with
  | some (.over (.conn conn)) => some conn
  | _ => none

/-- A call has given this connection to the user. -/
def owns (conn : Nat) (s : Session) : Bool :=
  s.calls.any fun c => c.stage = .over (.conn conn)

/-- The user has what the request is made on. -/
def mayAsk (s : Session) : Request → Bool
  | .openConn | .accept => s.handle
  | .read conn _ | .write conn _ => s.owns conn

/-- Start a call; its number is that of the calls before it. -/
def ask (request : Request) (s : Session) : Option Session :=
  if s.mayAsk request then
    some (({ s with calls := s.calls ++ [({ request } : Call)] }).wake [.call s.calls.length])
  else none

/-- Give a call up that has not ended. -/
def cancel (call : Nat) (s : Session) : Session :=
  match s.calls[call]? with
  | none => s
  | some c =>
    if c.isOver then s
    else
      ({ s with calls := s.calls.modify call fun c => { c with cancelled := true } }).wake [.call call]

/-! ### The link -/

/-- The reader goes on if it waits for bytes. -/
def wakeReading (s : Session) : Session :=
  match s.reader with
  | .reading _ => s.wake [.reader]
  | _ => s

/-- The writer goes on if it waits for room. -/
def wakeWriting (s : Session) : Session :=
  match s.writer with
  | .writing _ => s.wake [.writer]
  | _ => s

def deliver (bytes : Bytes) (s : Session) : Session :=
  (({ s with inlet := { s.inlet with bytes := s.inlet.bytes ++ bytes } }).note (.arrived bytes)).wakeReading

def endInput (ending : Ending) (s : Session) : Session :=
  ({ s with inlet := { s.inlet with ending := some ending } }).wakeReading

def takeOutput (count : Nat) (s : Session) : Session :=
  ({ s with outlet := { s.outlet with held := s.outlet.held.drop count } }).wakeWriting

def resizeOutput (capacity : Option Nat) (s : Session) : Session :=
  ({ s with outlet := { s.outlet with capacity } }).wakeWriting

def breakOutput (s : Session) : Session :=
  ({ s with outlet := { s.outlet with broken := true } }).wakeWriting

/-- Both halves of the link were let go. -/
def linkDropped (s : Session) : Bool := s.writer = .over ∧ s.reader = .over

/-! ### Time -/

/-- The moment for which a fiber has set a timer. -/
def timer (s : Session) : Fiber → Option Moment
  | .pinger =>
    match s.pinger with
    | .waiting due => some due
    | _ => none
  | .call k =>
    match Option.map Call.stage s.calls[k]? with
    | some (.answering _ due) => some due
    | _ => none
  | _ => none

/-- The fibers whose timers have gone off, each with the time at which that was. -/
def expired (s : Session) : List (Nat × Fiber) :=
  s.timers.filterMap fun f =>
    (s.timer f).bind fun due => if Timer.reached s.now due then some (Timer.tick due, f) else none

/-- Put fibers into the order in which their timers go off; of two at one time, the one that was set
first goes off first. -/
def inOrder {φ : Type} (expired : List (Nat × φ)) : List φ :=
  (expired.mergeSort fun a b => a.1 ≤ b.1).map (·.2)

/-- Let time pass in one leap; the timers that go off wake their fibers. -/
def advance (span : Duration) (s : Session) : Session :=
  let s := { s with now := s.now + span }
  s.wake (inOrder s.expired)

/-! ### Turns -/

/-- One turn of a fiber, and whether it goes on. -/
def turn (first : Bool) (s : Session) : Fiber → Session × Bool
  | .writer => s.writerTurn first
  | .reader => s.readerTurn first
  | .acceptor => s.acceptorTurn first
  | .pinger => s.pingerTurn
  | .returns => s.returnsTurn first
  | .call k => s.callTurn first k

/-- A ready fiber leaves the line and takes a turn. -/
def takeTurn (fiber : Fiber) (first : Bool) (s : Session) : Session × Bool :=
  ({ s with ready := s.ready.erase fiber }).turn first fiber

/-- Put a fiber at the head of the line. -/
def goOn (fiber : Fiber) (s : Session) : Session := { s with ready := fiber :: s.ready }

/-- A ready fiber takes a turn; one that goes on is the next to run. -/
def run (fiber : Fiber) (first : Bool) (s : Session) : Session :=
  match s.takeTurn fiber first with
  | (s, true) => s.goOn fiber
  | (s, false) => s

/-! ### Moves -/

/-- What a move leads to, if it can be made. -/
def move? (s : Session) : Move → Option Session
  | .ask request => s.ask request
  | .cancel call => some (s.cancel call)
  | .close => if s.handle then s.close?.toOption else none
  | .dropHandle => if s.handle then some s.dropHandle else none
  | .closeConn conn => if s.owns conn then some (s.closeConn conn) else none
  | .deliver bytes => some (s.deliver bytes)
  | .endInput ending => some (s.endInput ending)
  | .takeOutput count => some (s.takeOutput count)
  | .resizeOutput capacity => some (s.resizeOutput capacity)
  | .breakOutput => some s.breakOutput
  | .advance span => some (s.advance span)
  | .run fiber first => if fiber ∈ s.ready then some (s.run fiber first) else none

/-- A state that a run from `init` leads to. -/
inductive Reachable (init : Session) : Session → Prop
  | refl : Reachable init init
  | move {s s' : Session} (m : Move) : Reachable init s → s.move? m = some s' → Reachable init s'

end Session

end StreamMux
