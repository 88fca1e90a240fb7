import Mathlib

/-! The order of the positive floating-point numbers. A number that is not infinite stands in it by its
exponent first and its mantissa then, and infinity stands behind them all, so the order is total; what is not
a number is not positive. The lemmas about packed numbers come with the whole library only, and with no part of
it that could be imported instead. -/

namespace StreamMux

namespace Magnitude

open Float.Model (UnpackedFloat)

/-- The numbers above zero. -/
inductive Positive : UnpackedFloat → Prop
  | infinite : Positive (.infinity .positive)
  | finite (m : Nat) (e : Int) (h : 0 < m) : Positive (.finite .positive m e h)

/-- The place of a positive number among the others. -/
def rank : UnpackedFloat → WithTop (ℤ ×ₗ ℕ)
  | .finite _ m e _ => (toLex (e, m) : ℤ ×ₗ ℕ)
  | _ => ⊤

variable {u v : UnpackedFloat}

theorem compare_toLex (e f : Int) (m n : Nat) : (compare e f).then (compare m n) =
    compare ((toLex (e, m) : ℤ ×ₗ ℕ) : WithTop (ℤ ×ₗ ℕ)) (toLex (f, n) : ℤ ×ₗ ℕ) := by
  cases h : (compare e f).then (compare m n) with
  | lt =>
    rw [Ordering.then_eq_lt, compare_lt_iff_lt, compare_eq_iff_eq, compare_lt_iff_lt] at h
    exact (compare_lt_iff_lt.2 (WithTop.coe_lt_coe.2 (Prod.Lex.toLex_lt_toLex.2 h))).symm
  | eq =>
    rw [Ordering.then_eq_eq, compare_eq_iff_eq, compare_eq_iff_eq] at h
    obtain ⟨rfl, rfl⟩ := h
    exact (compare_eq_iff_eq.2 rfl).symm
  | gt =>
    rw [Ordering.then_eq_gt, compare_gt_iff_gt, compare_eq_iff_eq, compare_gt_iff_gt] at h
    exact (compare_gt_iff_gt.2 (WithTop.coe_lt_coe.2
      (Prod.Lex.toLex_lt_toLex.2 (h.imp_right fun h => ⟨h.1.symm, h.2⟩)))).symm

/-- Positive numbers are compared by their places. -/
theorem compare_rank (hu : Positive u) (hv : Positive v) : u.compare v = some (compare (rank u) (rank v)) := by
  cases hu with
  | infinite =>
    cases hv with
    | infinite => exact congrArg some (compare_eq_iff_eq.2 rfl).symm
    | finite n f hn => exact congrArg some (compare_gt_iff_gt.2 (WithTop.coe_lt_top _)).symm
  | finite m e hm =>
    cases hv with
    | infinite => exact congrArg some (compare_lt_iff_lt.2 (WithTop.coe_lt_top _)).symm
    | finite n f hn => exact congrArg some (compare_toLex e f m n)

theorem zero_lt_iff : (UnpackedFloat.zero .positive).lt u = true ↔ Positive u := by
  constructor
  · intro h
    cases u with
    | infinity s =>
      cases s with
      | positive => exact .infinite
      | negative => cases h
    | notANumber => cases h
    | zero s => cases h
    | finite s m e hm =>
      cases s with
      | positive => exact .finite m e hm
      | negative => cases h
  · intro h
    cases h <;> rfl

theorem rank_inj (hu : Positive u) (hv : Positive v) : rank u = rank v ↔ u = v := by
  cases hu <;> cases hv <;> simp [rank, and_comm]

/-! ### Positive numbers -/

variable {x y z : Float}

theorem pos_iff : 0.0 < x ↔ Positive x.toModel.unpack := by
  have hzero : (0.0 : Float).toModel.unpack = .zero .positive := rfl
  show decide ((0.0 : Float).toModel.unpack.lt x.toModel.unpack = true) = true ↔ _
  rw [hzero, decide_eq_true_iff, zero_lt_iff]

/-- The place of a positive number among the others. -/
def place (x : Float) : WithTop (ℤ ×ₗ ℕ) := rank x.toModel.unpack

theorem lt_iff_place_lt (hx : 0.0 < x) (hy : 0.0 < y) : x < y ↔ place x < place y := by
  show decide (x.toModel.unpack.lt y.toModel.unpack = true) = true ↔ _
  rw [decide_eq_true_iff, UnpackedFloat.lt, compare_rank (pos_iff.1 hx) (pos_iff.1 hy), beq_iff_eq,
    Option.some_inj, compare_lt_iff_lt]
  rfl

theorem le_iff_place_le (hx : 0.0 < x) (hy : 0.0 < y) : x ≤ y ↔ place x ≤ place y := by
  show decide (x.toModel.unpack.le y.toModel.unpack = true) = true ↔ _
  rw [decide_eq_true_iff, UnpackedFloat.le, compare_rank (pos_iff.1 hx) (pos_iff.1 hy), Option.any_some,
    Ordering.isLE_iff_ne_gt]
  exact compare_le_iff_le

theorem place_inj (hx : 0.0 < x) (hy : 0.0 < y) : place x = place y ↔ x = y := by
  rw [place, place, rank_inj (pos_iff.1 hx) (pos_iff.1 hy)]
  constructor
  · intro h
    have hbits := (UnpackedFloat.unpack_inj_of_valid x.toModel.valid y.toModel.valid).1 h
    exact Float.toBits_inj.1 (UInt64.toBitVec_inj.1 hbits)
  · rintro rfl
    rfl

theorem not_pos_of_isNaN (hx : x.isNaN = true) : ¬ 0.0 < x := by
  intro hpos
  have hnan : x.toModel.unpack = .notANumber := UnpackedFloat.isNaN_iff.1 hx
  have h := pos_iff.1 hpos
  rw [hnan] at h
  cases h

/-! ### The order -/

theorem not_lt_self (hx : 0.0 < x) : ¬ x < x := by
  rw [lt_iff_place_lt hx hx]
  exact lt_irrefl _

theorem lt_trans (hx : 0.0 < x) (hy : 0.0 < y) (hz : 0.0 < z) (hxy : x < y) (hyz : y < z) : x < z := by
  rw [lt_iff_place_lt hx hy] at hxy
  rw [lt_iff_place_lt hy hz] at hyz
  exact (lt_iff_place_lt hx hz).2 (hxy.trans hyz)

theorem lt_or_eq_or_lt (hx : 0.0 < x) (hy : 0.0 < y) : x < y ∨ x = y ∨ y < x := by
  rw [lt_iff_place_lt hx hy, ← place_inj hx hy, lt_iff_place_lt hy hx]
  exact lt_trichotomy _ _

theorem le_self (hx : 0.0 < x) : x ≤ x := (le_iff_place_le hx hx).2 (le_refl _)

theorem le_trans (hx : 0.0 < x) (hy : 0.0 < y) (hz : 0.0 < z) (hxy : x ≤ y) (hyz : y ≤ z) : x ≤ z := by
  rw [le_iff_place_le hx hy] at hxy
  rw [le_iff_place_le hy hz] at hyz
  exact (le_iff_place_le hx hz).2 (hxy.trans hyz)

theorem not_lt_iff_le (hx : 0.0 < x) (hy : 0.0 < y) : ¬ x < y ↔ y ≤ x := by
  rw [lt_iff_place_lt hx hy, le_iff_place_le hy hx, not_lt]

theorem le_of_lt (hx : 0.0 < x) (hy : 0.0 < y) (hxy : x < y) : x ≤ y := by
  rw [lt_iff_place_lt hx hy] at hxy
  exact (le_iff_place_le hx hy).2 hxy.le

end Magnitude

end StreamMux
