import StreamMux.Waiting.Monitor

/-! A queue with two lanes, each in the order of its pushes. What is in the priority lane is taken
first. A stopped queue refuses pushes and gives waiting takers nothing, but still hands out what it
holds to those who do not wait. -/

namespace StreamMux

inductive Lane
  | priority
  | normal
  deriving DecidableEq

structure Lanes (α : Type) where
  priority : List α := []
  normal : List α := []
  stopped : Bool := false
  deriving DecidableEq

namespace Lanes

variable {α : Type}

/-- Both lanes, in the order in which they would be taken. -/
def toList (l : Lanes α) : List α := l.priority ++ l.normal

def size (l : Lanes α) : Nat := l.priority.length + l.normal.length

/-- Append to a lane, unless the queue is stopped. -/
def push (lane : Lane) (x : α) (l : Lanes α) : Option (Lanes α) :=
  if l.stopped then none
  else
    match lane with
    | .priority => some { l with priority := l.priority ++ [x] }
    | .normal => some { l with normal := l.normal ++ [x] }

/-- Take the next item without waiting. -/
def take (l : Lanes α) : Lanes α × Option α :=
  match l.priority, l.normal with
  | x :: rest, _ => ({ l with priority := rest }, some x)
  | [], x :: rest => ({ l with normal := rest }, some x)
  | [], [] => (l, none)

theorem toList_of_take {l l' : Lanes α} {x : α} (h : l.take = (l', some x)) :
    l.toList = x :: l'.toList := by
  unfold take at h
  split at h
  · rename_i hp
    cases h
    simp [toList, hp]
  · rename_i hp hn
    cases h
    simp [toList, hp, hn]
  · cases h

theorem stopped_of_take {l l' : Lanes α} {x : Option α} (h : l.take = (l', x)) :
    l'.stopped = l.stopped := by
  unfold take at h
  split at h <;> cases h <;> rfl

theorem take_eq_none_iff (l : Lanes α) : l.take.2 = none ↔ l.toList = [] := by
  unfold take
  split <;> simp_all [toList]

/-- Take everything. -/
def drain (l : Lanes α) : Lanes α × List α := ({ l with priority := [], normal := [] }, l.toList)

/-- What a waiting taker sees: the end of a stopped queue, the next item, or nothing yet. -/
def pop (l : Lanes α) : Lanes α × Option (Option α) :=
  if l.stopped then (l, some none)
  else
    match l.take with
    | (l, some x) => (l, some (some x))
    | (l, none) => (l, none)

theorem take_of_pop {l l' : Lanes α} {x : α} (h : l.pop = (l', some (some x))) :
    l.stopped = false ∧ l.take = (l', some x) := by
  unfold pop at h
  split at h
  · cases h
  · rename_i hs
    refine ⟨by simpa using hs, ?_⟩
    split at h
    · rename_i ht; cases h; exact ht
    · cases h

theorem stopped_of_pop {l l' : Lanes α} (h : l.pop = (l', some none)) : l.stopped = true := by
  unfold pop at h
  split at h
  · assumption
  · split at h <;> cases h

theorem eq_of_pop {l l' : Lanes α} {x : Option (Option α)} (h : l.pop = (l', x))
    (hx : ∀ y, x ≠ some (some y)) : l' = l := by
  unfold pop at h
  split at h
  · cases h; rfl
  · split at h
    · cases h; exact absurd rfl (hx _)
    · rename_i ht
      cases h
      unfold take at ht
      split at ht <;> cases ht
      rfl

end Lanes

/-- A queue with its waiting takers. -/
abbrev Queue (κ α : Type) := Monitor κ (Lanes α)

namespace Queue

variable {κ α : Type} [DecidableEq κ]

def empty : Queue κ α := { state := {} }

/-- Append to a lane and wake one taker; a stopped queue refuses. -/
def push (lane : Lane) (x : α) (q : Queue κ α) : Option (Queue κ α × List κ) :=
  (q.state.push lane x).map fun lanes => q.tellOne lanes

/-- Refuse pushes from now on, and wake every taker. -/
def stop (q : Queue κ α) : Queue κ α × List κ := q.tellAll { q.state with stopped := true }

/-- Take without waiting. -/
def tryPop (q : Queue κ α) : Queue κ α × Option α :=
  let (state, x) := q.state.take
  ({ q with state }, x)

def drain (q : Queue κ α) : Queue κ α × List α :=
  let (state, xs) := q.state.drain
  ({ q with state }, xs)

/-- A waiting taker runs. -/
def pop (k : κ) (q : Queue κ α) : Queue κ α × Option (Option α) := q.poll k Lanes.pop

/-- A waiting taker runs up to its sleep. -/
def look (k : κ) (q : Queue κ α) : Queue κ α × Option (Option α) := q.glance k Lanes.pop

theorem take_of_pop {k : κ} {q q' : Queue κ α} {x : α} (h : q.pop k = (q', some (some x))) :
    q.state.stopped = false ∧ q.state.take = (q'.state, some x) :=
  Lanes.take_of_pop (Monitor.look_of_poll h)

theorem stopped_of_pop {k : κ} {q q' : Queue κ α} (h : q.pop k = (q', some none)) :
    q.state.stopped = true :=
  Lanes.stopped_of_pop (Monitor.look_of_poll h)

/-- Who is given no item leaves the queue as it was. -/
theorem state_of_pop {k : κ} {q q' : Queue κ α} {x : Option (Option α)} (h : q.pop k = (q', x))
    (hx : ∀ y, x ≠ some (some y)) : q'.state = q.state := by
  rcases x with _ | _ | y
  · rcases Monitor.state_of_poll_none h with hs | hs
    · exact hs
    · exact Lanes.eq_of_pop hs hx
  · exact Lanes.eq_of_pop (Monitor.look_of_poll h) hx
  · exact absurd rfl (hx y)

end Queue

end StreamMux
