import StreamMux.Settings

/-! Timers that go off on whole milliseconds, and the ticker of the keep-alive pings. -/

namespace StreamMux

/-- A moment of the session's own clock, in nanoseconds since it started. -/
abbrev Moment := Nat

namespace Timer

/-- The millisecond on which a timer goes off: the first that is not before its moment. -/
def tick (due : Moment) : Nat := (due + 999999) / 1000000

/-- The timer has gone off. -/
def reached (now due : Moment) : Bool := tick due ≤ now / 1000000

/-- How late a tick may be seen for the ticker to stay on its schedule. -/
def lateness : Duration := .ofMillis 5

/-- The tick after one that was due and is seen now: one period later on the schedule, or one period
from now if it was seen late. -/
def following (now due : Moment) (period : Duration) : Moment :=
  if due + lateness < now then now + period else due + period

end Timer

end StreamMux
