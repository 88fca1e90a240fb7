import StreamMux.Buffer.Pool

/-! A pool with the buffers it has lent. Loans are numbered in the order in which they were made; a
loan ends once, and what was lent is then no longer within reach of its number. -/

namespace StreamMux

structure Lending where
  pool : Pool
  /-- The buffer of each loan that has not ended. -/
  loans : List (Option Buffer) := []
  deriving DecidableEq

namespace Lending

/-- The buffer of a loan that has not ended. -/
def buffer? (l : Lending) (i : Nat) : Option Buffer := (l.loans[i]?).join

def acquire (l : Lending) : Lending × Buffer :=
  let (pool, b) := l.pool.acquire
  ({ pool, loans := l.loans ++ [some b] }, b)

def copy (bytes : Bytes) (l : Lending) : Lending × Buffer :=
  let (pool, b) := l.pool.copy bytes
  ({ pool, loans := l.loans ++ [some b] }, b)

/-- Change a lent buffer, and answer what it is now. -/
def edit (i : Nat) (e : Edit) (l : Lending) : Lending × Option Buffer :=
  match l.buffer? i with
  | none => (l, none)
  | some b =>
    let (pool, b) := l.pool.edit b e
    ({ pool, loans := l.loans.set i (some b) }, some b)

/-- End a loan; nothing happens to one that has ended. -/
def release (i : Nat) (l : Lending) : Lending :=
  match l.buffer? i with
  | none => l
  | some b => { pool := l.pool.release b, loans := l.loans.set i none }

/-- End every loan, in the order of their numbers. -/
def releaseAll (l : Lending) : Lending :=
  (List.range l.loans.length).foldl (fun l i => l.release i) l

end Lending

end StreamMux
