import StreamMux.Session.Run

/-! The run of a session on one thread: ready fibers run in the order in which they became ready, each
until it has to wait. -/

namespace StreamMux

/-- More turns than it takes in practice until every fiber waits. -/
def turnLimit : Nat := 1000000000

namespace Session

/-- Take at most so many turns. -/
def settleFor : Nat → Session → Session
  | 0, s => s
  | turns + 1, s =>
    match s.ready with
    | [] => s
    | fiber :: _ => settleFor turns (s.run fiber true)

/-- Run until every fiber waits. -/
def settle (s : Session) : Session := s.settleFor turnLimit

/-- The far end takes up to `count` bytes, the writer going on as room appears. -/
def drain (count : Nat) (s : Session) : Session × Bytes :=
  let bytes := s.outlet.held.take count
  if bytes = [] then (s, [])
  else
    let (s, more) := (s.takeOutput bytes.length).settle.drain (count - bytes.length)
    (s, bytes ++ more)
termination_by count
decreasing_by
  rename_i h
  have : 0 < (s.outlet.held.take count).length := List.length_pos_iff.2 h
  rw [List.length_take] at this ⊢
  omega

end Session

end StreamMux
