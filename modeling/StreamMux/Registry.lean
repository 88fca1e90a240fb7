/-! The live connections of a session by id. An id is never taken over: a connection leaves by its
removal or with the end of the registry, after which nothing is found and nothing enters. -/

namespace StreamMux

structure Registry (α : Type) where
  entries : List (Int32 × α) := []
  closed : Bool := false
  deriving DecidableEq

namespace Registry

variable {α : Type}

/-- The entry under an id, whether or not the registry is closed. -/
def lookup (r : Registry α) (id : Int32) : Option α := List.lookup id r.entries

def get? (r : Registry α) (id : Int32) : Option α := if r.closed then none else r.lookup id

def contains (r : Registry α) (id : Int32) : Bool := (r.get? id).isSome

/-- Enter under a free id. -/
def insertNew (r : Registry α) (id : Int32) (x : α) : Option (Registry α) :=
  if r.closed ∨ (r.lookup id).isSome then none else some { r with entries := r.entries ++ [(id, x)] }

theorem lookup_insertNew {r r' : Registry α} {id : Int32} {x : α} (h : r.insertNew id x = some r')
    (i : Int32) : r'.lookup i = if i = id then some x else r.lookup i := by
  unfold insertNew at h
  split at h
  · cases h
  · rename_i hfree
    obtain ⟨-, hfree⟩ := not_or.1 hfree
    cases h
    have hnone : r.lookup id = none := by simpa using hfree
    rw [lookup, List.lookup_append]
    by_cases hi : i = id
    · subst hi
      rw [lookup] at hnone
      simp [hnone]
    · simp [hi, lookup, List.lookup_cons, beq_eq_false_iff_ne.2 hi]

theorem mem_of_lookup {r : Registry α} {id : Int32} {x : α} (h : r.lookup id = some x) :
    (id, x) ∈ r.entries := by
  obtain ⟨before, after, he, -⟩ := List.lookup_eq_some_iff.1 h
  simp [he]

/-- With one entry for each id, every entry is found. -/
theorem lookup_of_mem {r : Registry α} (h : (r.entries.map (·.1)).Nodup) {id : Int32} {x : α}
    (hx : (id, x) ∈ r.entries) : r.lookup id = some x := by
  unfold lookup
  generalize r.entries = es at h hx
  induction es with
  | nil => cases hx
  | cons e es ih =>
    obtain ⟨hnot, hrest⟩ := List.nodup_cons.1 h
    rcases List.mem_cons.1 hx with rfl | hx
    · simp
    · have hne : id ≠ e.1 := fun he => hnot (List.mem_map.2 ⟨(id, x), hx, he⟩)
      rw [List.lookup_cons, beq_eq_false_iff_ne.2 hne]
      exact ih hrest hx

/-- Remove what is under an id, and answer it. -/
def delete (r : Registry α) (id : Int32) : Registry α × Option α :=
  ({ r with entries := r.entries.filter (·.1 ≠ id) }, r.lookup id)

theorem lookup_delete (r : Registry α) (id i : Int32) :
    (r.delete id).1.lookup i = if i = id then none else r.lookup i := by
  unfold delete lookup
  induction r.entries with
  | nil => simp
  | cons e es ih =>
    obtain ⟨k, x⟩ := e
    by_cases hk : k = id
    · subst hk
      rw [List.filter_cons_of_neg (by simp), ih, List.lookup_cons]
      by_cases hi : i = k
      · simp [hi]
      · simp [hi, beq_eq_false_iff_ne.2 hi]
    · rw [List.filter_cons_of_pos (by simpa using hk), List.lookup_cons, List.lookup_cons, ih]
      by_cases hi : i = k
      · subst hi
        simp [hk]
      · simp [beq_eq_false_iff_ne.2 hi]

def size (r : Registry α) : Nat := r.entries.length

/-- Empty the registry for good, and answer what was in it. -/
def close (r : Registry α) : Registry α × List α :=
  if r.closed then (r, []) else ({ entries := [], closed := true }, r.entries.map (·.2))

end Registry

end StreamMux
