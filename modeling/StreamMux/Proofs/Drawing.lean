import StreamMux.Ids
import Mathlib.Tactic.Common

/-! How far the counter of the ids is from an id. Each id that is tried brings it one nearer, so a search of
one round finds an id if any of the round is free. -/

namespace StreamMux

namespace IdSource

variable {s s' : IdSource} {i id : Int32} {n : Nat} {inUse : Int32 → Bool}

/-- The largest id that is ever drawn. -/
def limit : Int32 := Int32.maxValue - idWrapMargin + 1

theorem toInt_limit : limit.toInt = 2147473648 := by decide

/-- From the largest id on, and from below zero, the counter starts again at 1. -/
theorem toInt_successor (s : IdSource) : s.successor.toInt =
    if s.last.toInt < 0 ∨ limit.toInt ≤ s.last.toInt then 1 else s.last.toInt + 1 := by
  have hmin := Int32.le_toInt s.last
  have hmax := Int32.toInt_lt s.last
  have hwrap : Int32.maxValue - s.last < idWrapMargin ↔
      s.last.toInt < 0 ∨ limit.toInt ≤ s.last.toInt := by
    rw [Int32.lt_iff_toInt_lt, Int32.toInt_sub, toInt_limit, show Int32.maxValue.toInt = 2147483647 from by decide,
      show idWrapMargin.toInt = 10000 from by decide, Int.bmod_def]
    split <;> omega
  unfold successor
  simp only [hwrap]
  split
  · decide
  · rename_i hgo
    rw [toInt_limit] at hgo
    rw [Int32.toInt_add, show (1 : Int32).toInt = 1 from by decide]
    exact Int.bmod_eq_of_le_mul_two (by omega) (by omega)

/-- So many ids the counter tries until it comes to `i`, or a few less. -/
def ahead (i : Int32) (s : IdSource) : Nat :=
  if s.last.toInt < 0 then i.toInt.toNat
  else if s.last.toInt < i.toInt then (i.toInt - s.last.toInt).toNat
  else (2147483647 - s.last.toInt + i.toInt).toNat

theorem ahead_pos (hpos : 0 < i) (s : IdSource) : 0 < s.ahead i := by
  have hmax := Int32.toInt_lt s.last
  rw [Int32.lt_iff_toInt_lt, Int32.toInt_zero] at hpos
  unfold ahead
  split
  · omega
  · split <;> omega

theorem ahead_lt_rounds (s : IdSource) : s.ahead i < rounds := by
  have hmax := Int32.toInt_lt i
  unfold ahead rounds
  split
  · omega
  · split <;> omega

/-- An id that is tried in vain brings the counter nearer. -/
theorem ahead_successor_lt (hpos : 0 < i) (hle : i ≤ limit) (hne : s.successor ≠ i) :
    ahead i ⟨s.successor⟩ < s.ahead i := by
  have hmax := Int32.toInt_lt s.last
  have hnext := s.toInt_successor
  have hne : s.successor.toInt ≠ i.toInt := fun h => hne (Int32.toInt_inj.1 h)
  rw [Int32.lt_iff_toInt_lt, Int32.toInt_zero] at hpos
  rw [Int32.le_iff_toInt_le, toInt_limit] at hle
  rw [toInt_limit] at hnext
  simp only [ahead]
  split_ifs at hnext ⊢ <;> omega

/-- A search that is long enough finds an id, and comes nearer to the free one or finds that. -/
theorem exists_search (hpos : 0 < i) (hle : i ≤ limit) (hfree : inUse i = false) (hn : s.ahead i ≤ n) :
    ∃ id, s.search inUse n = some (id, ⟨id⟩) ∧ (id = i ∨ ahead i ⟨id⟩ < s.ahead i) := by
  induction n generalizing s with
  | zero => exact absurd (ahead_pos hpos s) (by omega)
  | succ n ih =>
    have hnear (hne : s.successor ≠ i) := ahead_successor_lt hpos hle hne
    rw [search]
    split
    · exact ⟨_, rfl, (Decidable.em _).imp_right hnear⟩
    · rename_i htaken
      have hne : s.successor ≠ i := fun he => htaken (he ▸ ⟨hpos, hfree⟩)
      have hlt := hnear hne
      obtain ⟨id, hid, hor⟩ := ih (s := ⟨s.successor⟩) (by omega)
      exact ⟨id, hid, hor.imp_right fun h => Nat.lt_trans h hlt⟩

/-- As long as an id of the round is free one is drawn, and the draws come nearer to that. -/
theorem exists_draw (hpos : 0 < i) (hle : i ≤ limit) (hfree : inUse i = false) (s : IdSource) :
    ∃ id, s.draw inUse = some (id, ⟨id⟩) ∧ (id = i ∨ ahead i ⟨id⟩ < s.ahead i) :=
  exists_search hpos hle hfree (Nat.le_of_lt (ahead_lt_rounds s))

theorem successor_le_limit (s : IdSource) : s.successor ≤ limit := by
  rw [Int32.le_iff_toInt_le, toInt_successor, toInt_limit]
  split <;> omega

theorem le_limit_of_search (h : s.search inUse n = some (id, s')) : id ≤ limit := by
  induction n generalizing s with
  | zero => cases h
  | succ n ih =>
    rw [search] at h
    split at h
    · simp only [Option.some.injEq, Prod.mk.injEq] at h
      exact h.1 ▸ s.successor_le_limit
    · exact ih h

/-- What is drawn is an id of the round. -/
theorem le_limit_of_draw (h : s.draw inUse = some (id, s')) : id ≤ limit := le_limit_of_search h

end IdSource

end StreamMux
