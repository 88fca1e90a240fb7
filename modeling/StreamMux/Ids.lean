/-! Drawing ids for new connections: a counter that goes upward, starts again at 1 well before the
largest id, and passes over the ids in use. -/

namespace StreamMux

/-- How far below the largest id the counter starts again. -/
def idWrapMargin : Int32 := 10000

/-- The counter: the id drawn last. -/
structure IdSource where
  last : Int32 := 0
  deriving DecidableEq

namespace IdSource

/-- The id after the last one. -/
def successor (s : IdSource) : Int32 :=
  (if Int32.maxValue - s.last < idWrapMargin then 0 else s.last) + 1

/-- Try at most `n` ids. -/
def search (inUse : Int32 → Bool) : Nat → IdSource → Option (Int32 × IdSource)
  | 0, _ => none
  | n + 1, s =>
    let id := s.successor
    if 0 < id ∧ inUse id = false then some (id, ⟨id⟩) else search inUse n ⟨id⟩

/-- As many ids as there are positive ones: a search this long meets every id of the round. -/
def rounds : Nat := 2147483648

/-- The next id that is not in use, if any is free. -/
def draw (inUse : Int32 → Bool) (s : IdSource) : Option (Int32 × IdSource) :=
  s.search inUse rounds

theorem pos_and_free_of_search {inUse : Int32 → Bool} {n : Nat} {s s' : IdSource} {id : Int32}
    (h : s.search inUse n = some (id, s')) : 0 < id ∧ inUse id = false := by
  induction n generalizing s with
  | zero => cases h
  | succ n ih =>
    rw [search] at h
    split at h
    · rename_i hid
      simp only [Option.some.injEq, Prod.mk.injEq] at h
      exact h.1 ▸ hid
    · exact ih h

/-- What is drawn is positive and not in use. -/
theorem pos_and_free_of_draw {inUse : Int32 → Bool} {s s' : IdSource} {id : Int32}
    (h : s.draw inUse = some (id, s')) : 0 < id ∧ inUse id = false := by
  rw [draw] at h
  exact pos_and_free_of_search h

end IdSource

end StreamMux
