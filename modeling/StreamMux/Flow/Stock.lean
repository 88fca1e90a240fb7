import StreamMux.Flow.Receive
import StreamMux.Buffer.Pool

/-! A receive window whose segments lie in buffers of a pool. A segment that is refused gives its buffer
back at once, and one that is read up gives it back with its last byte. One that is handed out whole takes
its buffer along. -/

namespace StreamMux

/-- Give buffers back, one after the other. -/
def Pool.releaseAll (buffers : List Buffer) (p : Pool) : Pool := buffers.foldl (fun p b => p.release b) p

structure Stock (κ : Type) where
  inflow : Inflow κ
  pool : Pool
  /-- The buffers of the segments in the window, in their order. -/
  buffers : List Buffer := []
  /-- The buffers of the segments that were handed out and are held. -/
  handed : List Buffer := []

namespace Stock

variable {κ : Type} [DecidableEq κ]

/-- Append the contents of a buffer as a segment of connection `id`. -/
def write (id : Int32) (b : Buffer) (part : Bool) (s : Stock κ) : Stock κ × Except MuxError (List κ) :=
  match s.inflow.write id b.bytes part with
  | .ok (inflow, woken) => ({ s with inflow, buffers := s.buffers ++ [b] }, .ok woken)
  | .error cause => ({ s with pool := s.pool.release b }, .error cause)

/-- The buffers after a reader was served. -/
def handOut (s : Stock κ) : Inflow κ × Option Taken → Stock κ × Option Taken
  | (inflow, some (.segment (some segment))) =>
    ({ s with inflow, buffers := s.buffers.drop 1, handed := s.handed ++ s.buffers.take 1 },
      some (.segment (some segment)))
  | (inflow, answer) =>
    let gone := s.buffers.length - inflow.state.segments.length
    ({ s with
        inflow
        pool := s.pool.releaseAll (s.buffers.take gone)
        buffers := s.buffers.drop gone }, answer)

/-- A reader runs. -/
def take (k : κ) (want : Want) (s : Stock κ) : Stock κ × Option Taken := s.handOut (s.inflow.take k want)

/-- A reader runs up to its sleep. -/
def look (k : κ) (want : Want) (s : Stock κ) : Stock κ × Option Taken := s.handOut (s.inflow.look k want)

def settle (k : κ) (s : Stock κ) : Stock κ := { s with inflow := s.inflow.settle k }

/-- Let a segment that was handed out go. -/
def letGo (i : Nat) (s : Stock κ) : Stock κ :=
  match s.handed[i]? with
  | some b => { s with pool := s.pool.release b, handed := s.handed.eraseIdx i }
  | none => s

/-- A reader goes away. -/
def leave (k : κ) (s : Stock κ) : Stock κ × List κ :=
  let (inflow, woken) := s.inflow.leave k
  ({ s with inflow }, woken)

def takeCredit (threshold : Nat) (s : Stock κ) : Stock κ × Option UInt32 :=
  let (inflow, credit) := s.inflow.takeCredit threshold
  ({ s with inflow }, credit)

/-- Refuse segments from now on, and wake every reader. -/
def stop (s : Stock κ) : Stock κ × List κ :=
  let (inflow, woken) := s.inflow.stop
  ({ s with inflow }, woken)

end Stock

end StreamMux
