/-! Throughput of the reading side. Bytes are counted until a whole window of segments has arrived; the
read that starts next closes the window, and the rate over the window is published. -/

namespace StreamMux

/-- Segments in a window. -/
def windowSegments : Nat := 300

/-- The rate shown before any was measured, in bytes per second. -/
def defaultThroughput : Float := 100.0

/-- The largest byte count. -/
def maxCount : Nat := 18446744073709551615

/-- Times are nanoseconds after a fixed moment. -/
structure Throughput where
  /-- Bytes that fill a window. -/
  threshold : Nat
  /-- When the window began. -/
  windowStart : Option Nat := none
  /-- Bytes counted in the window. -/
  counted : Nat := 0
  /-- The last rate measured, zero before there is one. -/
  published : Float := 0.0

namespace Throughput

/-- An estimator for segments of at most `maxSegment` bytes. -/
def forSegments (maxSegment : Nat) : Throughput := { threshold := maxSegment * windowSegments }

/-- Nanoseconds as seconds. -/
def seconds (nanos : Nat) : Float :=
  Float.ofNat (nanos / 1000000000) + Float.ofNat (nanos % 1000000000) / 1e9

/-- The rate of a window, if time has passed; a clock that went back measures none. -/
def rate? (bytes start stop : Nat) : Option Float :=
  let secs := seconds (stop - start)
  if secs > 0.0 then some (Float.ofNat bytes / secs) else none

/-- A read starts: a full window is closed and the next one begins. -/
def startRead (now : Nat) (t : Throughput) : Throughput :=
  let start := t.windowStart.getD now
  if t.threshold ≤ t.counted then
    { t with
      windowStart := some now
      counted := 0
      published := (rate? t.counted start now).getD t.published }
  else
    { t with windowStart := some start }

/-- Payload bytes were read. -/
def add (bytes : Nat) (t : Throughput) : Throughput :=
  { t with counted := min (t.counted + bytes) maxCount }

/-- What a reader of the published rate shows. -/
def shown (published : Float) : Float := if published > 0.0 then published else defaultThroughput

def current (t : Throughput) : Float := shown t.published

end Throughput

end StreamMux
