/-! Latency from ping round trips: the least of the last sixteen samples, scaled by the share of them
that is close to it. Samples far above the least count as lost. -/

namespace StreamMux

/-- Samples that are kept. -/
abbrev latencySlots : Nat := 16

theorem latencySlots_pos : 0 < latencySlots := by decide

/-- A sample above this multiple of the least one counts as lost. -/
def lossRatio : Float := 1.6

structure Latency where
  /-- The ring of samples, in seconds. -/
  slots : Vector (Option Float) latencySlots := Vector.replicate latencySlots none
  /-- The slot that the next sample goes to. -/
  head : Fin latencySlots := ⟨0, latencySlots_pos⟩
  /-- The slot of the least sample. -/
  least : Fin latencySlots := ⟨0, latencySlots_pos⟩
  /-- The latency reported last. -/
  published : Float := 0.0

namespace Latency

/-- The sample in a slot. -/
def slot (l : Latency) (i : Fin latencySlots) : Option Float := l.slots[i]

/-- The least sample, zero before there is one. -/
def minimum (l : Latency) : Float := (l.slot l.least).getD 0.0

/-- The samples in the ring. -/
def samples (l : Latency) : List Float := l.slots.toList.filterMap id

def isLost (l : Latency) (sample : Float) : Bool := lossRatio * l.minimum < sample

/-- The share of samples that are not lost, one before there is any. -/
def successRate (l : Latency) : Float :=
  let lost := l.samples.countP l.isLost
  let kept := l.samples.length - lost
  if l.samples.length = 0 then 1.0 else Float.ofNat kept / Float.ofNat (kept + lost)

/-- The better of the best slot so far and the next one. -/
def better (l : Latency) (best : Option (Fin latencySlots × Float)) (i : Fin latencySlots) :
    Option (Fin latencySlots × Float) :=
  match best, l.slot i with
  | best, none => best
  | none, some s => some (i, s)
  | some (j, t), some s => if s < t then some (i, s) else some (j, t)

/-- The first slot whose sample is the least, or the head while the ring is empty. -/
def scan (l : Latency) : Fin latencySlots :=
  ((List.finRange latencySlots).foldl l.better none).elim l.head (·.1)

/-- Put a sample into the head slot. -/
def store (sample : Float) (l : Latency) : Latency :=
  { l with slots := l.slots.set l.head (some sample) }

/-- Search for the least sample if its slot is the head, whose sample has been replaced. -/
def renew (l : Latency) : Latency := if l.head = l.least then { l with least := l.scan } else l

/-- The sample in the head slot becomes the least one if it is smaller. -/
def prefer (sample : Float) (l : Latency) : Latency :=
  match l.slot l.least with
  | some m => if m > sample then { l with least := l.head } else l
  | none => { l with least := l.head }

/-- Put a positive sample into the ring. -/
def add (sample : Float) (l : Latency) : Latency :=
  let l := ((l.store sample).renew).prefer sample
  { l with head := l.head + 1 }

/-- Take a sample, if it is positive; publish the latency, and answer it. -/
def measure (sample : Float) (l : Latency) : Latency × Float :=
  let l := if sample > 0.0 then l.add sample else l
  let latency := l.minimum * l.successRate
  ({ l with published := latency }, latency)

/-- Take a sample and publish the latency. -/
def report (sample : Float) (l : Latency) : Latency := (l.measure sample).1

end Latency

end StreamMux
