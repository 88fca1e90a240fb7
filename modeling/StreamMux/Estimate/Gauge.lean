/-! Published measurements. A gauge is a reader of one cell; copies of a gauge read the same cell, so
what one of them publishes they all show. -/

namespace StreamMux

/-- The cells that hold values, and the cell that each gauge reads. -/
structure GaugeBoard where
  cells : List Float := []
  gauges : List Nat := []

namespace GaugeBoard

/-- A new gauge with a cell of its own. -/
def add (value : Float) (b : GaugeBoard) : GaugeBoard :=
  { cells := b.cells ++ [value], gauges := b.gauges ++ [b.cells.length] }

/-- A copy of a gauge. -/
def share (i : Nat) (b : GaugeBoard) : GaugeBoard :=
  match b.gauges[i]? with
  | some cell => { b with gauges := b.gauges ++ [cell] }
  | none => b

/-- Publish a value through a gauge. -/
def publish (i : Nat) (value : Float) (b : GaugeBoard) : GaugeBoard :=
  match b.gauges[i]? with
  | some cell => { b with cells := b.cells.set cell value }
  | none => b

/-- What the gauges show, in order. -/
def readings (b : GaugeBoard) : List Float := b.gauges.filterMap (b.cells[·]?)

end GaugeBoard

end StreamMux
