/-! A lock with a line. It is handed from its holder straight to the first in line, so nobody who
comes later overtakes. -/

namespace StreamMux

structure Lock (κ : Type) where
  holder : Option κ := none
  line : List κ := []
  deriving DecidableEq

namespace Lock

variable {κ : Type} [DecidableEq κ]

/-- Take the lock if it is free, else join the line. -/
def request (k : κ) (l : Lock κ) : Lock κ :=
  match l.holder with
  | none => { l with holder := some k }
  | some _ => { l with line := l.line ++ [k] }

/-- Hand the lock on, and answer who has it now. -/
def release (l : Lock κ) : Lock κ × List κ :=
  match l.line with
  | [] => ({ l with holder := none }, [])
  | k :: rest => ({ holder := some k, line := rest }, [k])

/-- Go away: the holder hands the lock on, anybody else leaves the line. -/
def leave (k : κ) (l : Lock κ) : Lock κ × List κ :=
  if l.holder = some k then l.release else ({ l with line := l.line.filter (· ≠ k) }, [])

end Lock

end StreamMux
