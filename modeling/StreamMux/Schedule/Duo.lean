import StreamMux.Schedule.Solo
import StreamMux.Pair

/-! The run of a pair of sessions on one thread: the fibers of both sides stand in one line, in the
order in which they became ready, and each runs until it has to wait. -/

namespace StreamMux

structure Duo where
  pair : Pair
  /-- The fibers to run, in order. -/
  line : List (Side × Fiber) := []

namespace Duo

/-- Append to the line what is ready on a side. -/
def collect (side : Side) (d : Duo) : Duo :=
  { d with line := joinLine d.line ((d.pair.side side).ready.map fun f => (side, f)) }

/-- A pair at its start, with the loops of the left side in front. -/
def start (pair : Pair) : Duo := (({ pair } : Duo).collect .left).collect .right

/-- Change one side, and line up whom that makes ready. -/
def change (side : Side) (f : Session → Session) (d : Duo) : Duo :=
  ({ d with pair := d.pair.change side f }).collect side

/-- The first in line takes a turn; if it goes on, it stays the first. Whom it woke on the far side
stands in front of whom it woke on its own. -/
def run (side : Side) (fiber : Fiber) (rest : List (Side × Fiber)) (d : Duo) : Duo :=
  let (pair, goesOn) := d.pair.takeTurn side fiber true
  let d := (({ pair, line := rest } : Duo).collect side.other).collect side
  if goesOn then { pair := d.pair.change side (Session.goOn fiber), line := (side, fiber) :: d.line } else d

/-- Take at most so many turns. -/
def settleFor : Nat → Duo → Duo
  | 0, d => d
  | turns + 1, d =>
    match d.line with
    | [] => d
    | (side, fiber) :: rest => settleFor turns (d.run side fiber rest)

/-- Run until every fiber waits. -/
def settle (d : Duo) : Duo := d.settleFor turnLimit

/-- Let time pass on both sides; timers wake their fibers in the order in which they go off. -/
def advance (span : Duration) (d : Duo) : Duo :=
  let pair := d.pair.advance span
  let tagged (side : Side) : List (Nat × (Side × Fiber)) :=
    (pair.side side).expired.map fun (tick, f) => (tick, (side, f))
  { pair, line := joinLine d.line (Session.inOrder (tagged .left ++ tagged .right)) }

end Duo

end StreamMux
