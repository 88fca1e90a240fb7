import StreamMux.Session.Run

/-! Two sessions joined by a link that keeps order and loses nothing. It carries a bounded number of
bytes each way: what one side wrote and the other has not read is held at the one and has arrived at
the other. -/

namespace StreamMux

inductive Side
  | left
  | right
  deriving DecidableEq

/-- The far side. -/
def Side.other : Side → Side
  | .left => .right
  | .right => .left

structure Pair where
  left : Session
  right : Session

namespace Pair

def side (p : Pair) : Side → Session
  | .left => p.left
  | .right => p.right

def setSide (side : Side) (s : Session) (p : Pair) : Pair :=
  match side with
  | .left => { p with left := s }
  | .right => { p with right := s }

def change (side : Side) (f : Session → Session) (p : Pair) : Pair :=
  p.setSide side (f (p.side side))

/-- What a turn of one side does to the other: it makes room for the bytes that were read, and brings
the bytes that were written, the end of the stream, and the loss of the link. -/
def carry (before after : Session) (s : Session) : Session :=
  let read := before.inlet.bytes.length - after.inlet.bytes.length
  let written := after.outlet.held.drop before.outlet.held.length
  let s := if read = 0 then s else s.takeOutput read
  let s := if written = [] then s else s.deliver written
  let s := if after.outlet.shut ∧ ¬ before.outlet.shut then s.endInput .closed else s
  if after.linkDropped ∧ ¬ before.linkDropped then s.breakOutput else s

/-- A ready fiber of one side takes a turn, and the other side sees what that did to the link. -/
def takeTurn (side : Side) (fiber : Fiber) (first : Bool) (p : Pair) : Pair × Bool :=
  let before := p.side side
  let (after, goesOn) := before.takeTurn fiber first
  ((p.setSide side after).change side.other (carry before after), goesOn)

/-- A ready fiber of one side takes a turn; one that goes on is the next of its side to run. -/
def run (side : Side) (fiber : Fiber) (first : Bool) (p : Pair) : Pair :=
  match p.takeTurn side fiber first with
  | (p, true) => p.change side (Session.goOn fiber)
  | (p, false) => p

/-- Let time pass on both sides. -/
def advance (span : Duration) (p : Pair) : Pair :=
  ⟨p.left.advance span, p.right.advance span⟩

/-! ### Moves -/

end Pair

/-- The move is made on one session, and not by the far end of its link. -/
def Move.isOwn : Move → Bool
  | .ask _ | .cancel _ | .close | .dropHandle | .closeConn _ | .resizeOutput _ => true
  | _ => false

inductive PairMove
  /-- A move of one session alone. -/
  | onSide (side : Side) (move : Move)
  | advance (span : Duration)
  /-- A fiber of one side takes a turn; if its session has ended meanwhile, it sees that first or not. -/
  | run (side : Side) (fiber : Fiber) (first : Bool)
  deriving DecidableEq

namespace Pair

/-- What a move leads to, if it can be made. -/
def move? (p : Pair) : PairMove → Option Pair
  | .onSide side m =>
    if m.isOwn then ((p.side side).move? m).map fun s => p.setSide side s else none
  | .advance span => some (p.advance span)
  | .run side fiber first => if fiber ∈ (p.side side).ready then some (p.run side fiber first) else none

/-- A state that a run from `init` leads to. -/
inductive Reachable (init : Pair) : Pair → Prop
  | refl : Reachable init init
  | move {p p' : Pair} (m : PairMove) : Reachable init p → p.move? m = some p' → Reachable init p'

end Pair

end StreamMux
