/-! Wake-ups. Calls that find nothing to do fall asleep in a line; one ring wakes the call that has
slept longest and is kept, once, while nobody sleeps; a ring for all wakes the whole line. A call
woken by a single ring that goes away before it ran hands the ring on. Between the look of a call that
finds nothing and its sleep others may act, and of their rings it hears only those for all. -/

namespace StreamMux

/-- Whether a call was woken alone or with all others. -/
inductive Ring
  | one
  | all
  deriving DecidableEq

structure Signal (κ : Type) where
  /-- The calls asleep, the longest first. -/
  asleep : List κ := []
  /-- The calls woken that have not run since. -/
  woken : List (κ × Ring) := []
  /-- The calls that have found nothing and do not sleep yet. -/
  wary : List κ := []
  /-- A ring that nobody has heard. -/
  kept : Bool := false
  deriving DecidableEq

namespace Signal

variable {κ : Type} [DecidableEq κ]

/-- Ring for one call, and answer whom it woke. -/
def ringOne (s : Signal κ) : Signal κ × List κ :=
  match s.asleep with
  | [] => ({ s with kept := true }, [])
  | k :: rest => ({ s with asleep := rest, woken := s.woken ++ [(k, .one)] }, [k])

/-- Ring for all calls asleep or about to sleep, and answer who slept. -/
def ringAll (s : Signal κ) : Signal κ × List κ :=
  ({ s with asleep := [], wary := [], woken := s.woken ++ (s.asleep ++ s.wary).map (·, .all) }, s.asleep)

/-- Ring for all and then for one more, who may only be about to sleep. -/
def ringBoth (s : Signal κ) : Signal κ × List κ :=
  let (s, all) := s.ringAll
  let (s, one) := s.ringOne
  (s, all ++ one)

/-- A call runs. -/
def rise (k : κ) (s : Signal κ) : Signal κ :=
  { s with woken := s.woken.filter (·.1 ≠ k), wary := s.wary.filter (· ≠ k) }

/-- A call has found nothing. -/
def hesitate (k : κ) (s : Signal κ) : Signal κ := { s with wary := s.wary ++ [k] }

/-- A call that has found nothing goes to the end of the line. If a ring is kept, it uses that up instead, and
is to look again. -/
def settle (k : κ) (s : Signal κ) : Signal κ :=
  if k ∈ s.wary then
    let rest : Signal κ := { s with wary := s.wary.filter (· ≠ k) }
    if s.kept then { rest with woken := s.woken ++ [(k, .one)], kept := false }
    else { rest with asleep := s.asleep ++ [k] }
  else s

/-- A call finds nothing and goes to the end of the line, and nothing comes between. A kept ring is used up: the
call would look once more and find what it just found. -/
def sleep (k : κ) (s : Signal κ) : Signal κ := { s with asleep := s.asleep ++ [k], kept := false }

/-- A call goes away, awake or asleep, and answer who was woken by that. -/
def leave (k : κ) (s : Signal κ) : Signal κ × List κ :=
  let rest : Signal κ := { s.rise k with asleep := s.asleep.filter (· ≠ k) }
  if (k, Ring.one) ∈ s.woken then rest.ringOne else (rest, [])

end Signal

end StreamMux
