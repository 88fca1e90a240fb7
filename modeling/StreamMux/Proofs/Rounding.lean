import StreamMux.Proofs.Magnitude

/-! Sizes of sums, products and quotients. A positive number that has all the digits of its mantissa keeps
them through an operation while its exponent stays far from the ends of the range, so counts, and what is
added up and divided from them, neither vanish nor grow infinite. -/

namespace StreamMux

namespace Magnitude

open Float.Model (UnpackedFloat totalExponent)
open Float.Model.Format (binary64)
open Float.Model.UnpackedFloat

variable {m n : Nat} {e : Int}

/-! ### Digits -/

theorem log2_div_two_pow {k : Nat} (hm : m ≠ 0) (hk : k ≤ m.log2) : (m / 2 ^ k).log2 = m.log2 - k := by
  obtain ⟨hlow, hhigh⟩ := (Nat.log2_eq_iff hm).1 rfl
  have hlow' : 2 ^ (m.log2 - k) ≤ m / 2 ^ k := by
    rw [Nat.le_div_iff_mul_le (Nat.two_pow_pos k), ← Nat.pow_add, Nat.sub_add_cancel hk]
    exact hlow
  have hhigh' : m / 2 ^ k < 2 ^ (m.log2 - k + 1) := by
    rw [Nat.div_lt_iff_lt_mul (Nat.two_pow_pos k), ← Nat.pow_add]
    have hsum : m.log2 - k + 1 + k = m.log2 + 1 := by omega
    rwa [hsum]
  exact (Nat.log2_eq_iff (Nat.ne_of_gt (Nat.lt_of_lt_of_le (Nat.two_pow_pos _) hlow'))).2 ⟨hlow', hhigh'⟩

theorem log2_shiftLeft (hm : m ≠ 0) (k : Nat) : (m <<< k).log2 = m.log2 + k := by
  obtain ⟨hlow, hhigh⟩ := (Nat.log2_eq_iff hm).1 rfl
  rw [Nat.shiftLeft_eq, Nat.log2_eq_iff (Nat.mul_ne_zero hm (Nat.two_pow_pos k).ne')]
  constructor
  · rw [Nat.pow_add]
    exact Nat.mul_le_mul_right _ hlow
  · rw [Nat.add_right_comm, Nat.pow_add]
    exact Nat.mul_lt_mul_of_pos_right hhigh (Nat.two_pow_pos k)

theorem le_log2_add (hm : m ≠ 0) : m.log2 ≤ (m + n).log2 :=
  (Nat.le_log2 (by omega)).2 ((Nat.log2_self_le hm).trans (Nat.le_add_right m n))

theorem log2_add_le (hm : m ≠ 0) : (m + n).log2 ≤ max m.log2 n.log2 + 1 := by
  have hpow : ∀ k, k ≤ max m.log2 n.log2 → 2 ^ (k + 1) ≤ 2 ^ (max m.log2 n.log2 + 1) := by
    intro k hk
    exact Nat.pow_le_pow_right (by decide) (by omega)
  have hm' : m < 2 ^ (max m.log2 n.log2 + 1) := Nat.lt_log2_self.trans_le (hpow _ (le_max_left _ _))
  have hn' : n < 2 ^ (max m.log2 n.log2 + 1) := Nat.lt_log2_self.trans_le (hpow _ (le_max_right _ _))
  refine Nat.le_of_lt_succ ((Nat.log2_lt (by omega)).2 ?_)
  rw [Nat.succ_eq_add_one, Nat.pow_succ]
  omega

/-! ### Rounding -/

theorem mantissa_shiftRight (x : ExtendedMantissa) (k : Nat) : (x >>> k).mantissa = x.mantissa / 2 ^ k := by
  induction k with
  | zero => exact (Nat.div_one _).symm
  | succ k ih =>
    show (x >>> k).mantissa / 2 = _
    rw [ih, Nat.div_div_eq_div_mul, Nat.pow_succ]

theorem mantissa_ofMantissaAndAccuracy (m : Nat) (a : Accuracy) :
    (ExtendedMantissa.ofMantissaAndAccuracy m a).mantissa = m := by
  unfold ExtendedMantissa.ofMantissaAndAccuracy
  split <;> rfl

/-- A mantissa is rounded to itself or to the next one. -/
theorem roundedMantissa_mem (x : ExtendedMantissa) :
    x.mantissa ≤ x.roundedMantissa ∧ x.roundedMantissa ≤ x.mantissa + 1 := by
  unfold ExtendedMantissa.roundedMantissa Accuracy.roundToNearestEven
  split <;> omega

theorem targetExponent_eq (he : -1074 ≤ m.log2 + e - 52) :
    binary64.targetExponent (totalExponent m e) = m.log2 + e - 52 := by
  show max ((m.log2 + 1 + e : Int) - ((1 + 52 : Nat) : Int)) (3 - 2 ^ (11 - 1) - ((1 + 52 : Nat) : Int)) = _
  omega

/-- A mantissa that is long enough is cut to its 53 leading digits. -/
theorem shiftToTargetExponent_of_long (hm : 52 ≤ m.log2) (he : -1074 ≤ m.log2 + e - 52) (a : Accuracy) :
    (shiftToTargetExponent binary64 m e a).1.mantissa = m / 2 ^ (m.log2 - 52) ∧
      (shiftToTargetExponent binary64 m e a).2 = m.log2 + e - 52 := by
  have hshift : ((m.log2 + e - 52 : Int) - e).toNat = m.log2 - 52 := by omega
  unfold shiftToTargetExponent shiftToExponent
  rw [targetExponent_eq he]
  dsimp only
  rw [hshift, mantissa_shiftRight, mantissa_ofMantissaAndAccuracy]
  exact ⟨rfl, by omega⟩

/-- A positive number with all the digits of its mantissa, its exponent from `lo` to `hi`. -/
inductive Normal (lo hi : Int) : UnpackedFloat → Prop
  | mk (m : Nat) (e : Int) (h : 0 < m) (hlog : m.log2 = 52) (hlo : lo ≤ e) (hhi : e ≤ hi) :
    Normal lo hi (.finite .positive m e h)

theorem Normal.mono {lo hi lo' hi' : Int} {u : UnpackedFloat} (hu : Normal lo hi u) (hlo : lo' ≤ lo)
    (hhi : hi ≤ hi') : Normal lo' hi' u := by
  obtain ⟨m, e, hm, hlog, hlo', hhi'⟩ := hu
  exact .mk m e hm hlog (by omega) (by omega)

/-- The second cut drops a digit only where rounding has made a power of two, so no digit that counts. -/
theorem roundWithAccuracy_normal (hm : 52 ≤ m.log2) (he : -1074 ≤ m.log2 + e - 52) (a : Accuracy) :
    Normal (m.log2 + e - 52) (m.log2 + e - 51) (roundWithAccuracy binary64 .positive m e a) := by
  have hm0 : m ≠ 0 := by
    rintro rfl
    simp at hm
  obtain ⟨hcut, hexp⟩ := shiftToTargetExponent_of_long hm he a
  unfold roundWithAccuracy
  dsimp only
  generalize shiftToTargetExponent binary64 m e a = first at hcut hexp ⊢
  obtain ⟨hle, hge⟩ := roundedMantissa_mem first.1
  generalize first.1.roundedMantissa = r at hle hge ⊢
  have hqlog : first.1.mantissa.log2 = 52 := by
    rw [hcut, log2_div_two_pow hm0 (by omega)]
    omega
  have hq0 : first.1.mantissa ≠ 0 := by
    intro h
    simp [h] at hqlog
  obtain ⟨hqlow, hqhigh⟩ := (Nat.log2_eq_iff hq0).1 hqlog
  have hr0 : r ≠ 0 := by omega
  have hrlow : 52 ≤ r.log2 := (Nat.le_log2 hr0).2 (by omega)
  have hrhigh : r.log2 < 54 := (Nat.log2_lt hr0).2 (by omega)
  obtain ⟨hcut', hexp'⟩ := shiftToTargetExponent_of_long (e := first.2) hrlow (by omega) .exact
  generalize shiftToTargetExponent binary64 r first.2 .exact = second at hcut' hexp' ⊢
  have hlog : second.1.mantissa.log2 = 52 := by
    rw [hcut', log2_div_two_pow hr0 (by omega)]
    omega
  have hne : second.1.mantissa ≠ 0 := by
    intro h
    simp [h] at hlog
  rw [dif_neg hne]
  exact .mk _ _ _ hlog (by omega) (by omega)

/-- A mantissa that is too short is made longer first. -/
theorem round_normal (hm : m ≠ 0) (he : -1074 ≤ m.log2 + e - 52) :
    Normal (m.log2 + e - 52) (m.log2 + e - 51) (UnpackedFloat.round binary64 .positive m e) := by
  unfold UnpackedFloat.round decreaseExponent
  rw [targetExponent_eq he]
  dsimp only
  generalize hk : (e - (m.log2 + e - 52)).toNat = k
  have hlog : (m <<< k).log2 = m.log2 + k := log2_shiftLeft hm k
  have hround := roundWithAccuracy_normal (m := m <<< k) (e := e - k) (by omega) (by omega) .exact
  exact hround.mono (by omega) (by omega)

theorem normalize_natCast (hm : 0 < m) (e : Int) (s : Sign) :
    UnpackedFloat.normalize binary64 m e s = UnpackedFloat.round binary64 .positive m e := by
  unfold UnpackedFloat.normalize
  rw [compare_gt_iff_gt.2 (Int.natCast_pos.2 hm)]
  rfl

/-! ### Packing -/

theorem unpack_pack {u : UnpackedFloat} (hu : Normal (-1074) 971 u) : (Float.Model.pack u).unpack = u := by
  obtain ⟨m, e, hm, hlog, hlo, hhi⟩ := hu
  obtain ⟨hlow, hhigh⟩ := (Nat.log2_eq_iff (Nat.ne_of_gt hm)).1 hlog
  have hbias : (e + (binary64.exponentBias : Nat) + (52 : Nat)).toNat = (e + 1075).toNat := by
    show (e + (1023 : Nat) + (52 : Nat)).toNat = _
    omega
  have hexp : (BitVec.ofNat 11 (e + 1075).toNat).toNat = (e + 1075).toNat := by
    rw [BitVec.toNat_ofNat, Nat.mod_eq_of_lt (by omega)]
  -- neither end of the range of exponents is met
  have hones : BitVec.ofNat 11 (e + 1075).toNat ≠ -1#11 := by
    intro h
    have hnat := congrArg BitVec.toNat h
    rw [hexp] at hnat
    have hlast : (-1#11).toNat = 2047 := rfl
    omega
  have hzero : BitVec.ofNat 11 (e + 1075).toNat ≠ 0#11 := by
    intro h
    have hnat := congrArg BitVec.toNat h
    rw [hexp] at hnat
    have hfirst : (0#11).toNat = 0 := rfl
    omega
  have hplace : ((BitVec.ofNat 11 (e + 1075).toNat).toNat : Int) -
      ((binary64.exponentBias : Nat) + (52 : Nat) : Int) = e := by
    rw [hexp]
    show ((e + 1075).toNat : Int) - ((1023 : Nat) + (52 : Nat) : Int) = e
    omega
  have hmant : (1#1 ++ BitVec.ofNat 52 m).toNat = m := by
    have hrest : m % 2 ^ 52 < 2 ^ 52 := Nat.mod_lt _ (by decide)
    rw [BitVec.toNat_append, BitVec.toNat_ofNat, BitVec.toNat_ofNat, Nat.shiftLeft_eq,
      Nat.one_mod_eq_one.2 (by decide), Nat.one_mul, Nat.or_comm, Nat.or_two_pow_eq_add_of_lt hrest]
    omega
  have hsign : Sign.ofBitVec Sign.positive.toBitVec = .positive := rfl
  show UnpackedFloat.unpack binary64 (UnpackedFloat.pack binary64 (.finite .positive m e hm)) = _
  unfold UnpackedFloat.pack
  dsimp only
  rw [hbias, if_neg (by show ¬ 2048 ≤ _; omega), if_pos (by rw [hlog]; rfl)]
  unfold UnpackedFloat.unpack
  simp only [unpackExponent_packComponents, unpackMantissa_packComponents, unpackSign_packComponents]
  rw [if_neg hones, if_neg hzero]
  simp only [hmant, hsign]
  exact congrArg (UnpackedFloat.finite .positive m · hm) hplace

/-! ### Moderate numbers -/

/-- A positive number with all the digits of its mantissa, its exponent between `-r` and `r`. -/
def Moderate (r : Int) (x : Float) : Prop := Normal (-r) r x.toModel.unpack

variable {x y z : Float} {r s : Int}

theorem Moderate.mono (hx : Moderate r x) (h : r ≤ s) : Moderate s x := Normal.mono hx (by omega) h

theorem Moderate.exists_unpack (hx : Moderate r x) : ∃ m e, ∃ hm : 0 < m,
    x.toModel.unpack = .finite .positive m e hm ∧ m.log2 = 52 ∧ -r ≤ e ∧ e ≤ r := by
  generalize hu : x.toModel.unpack = u
  unfold Moderate at hx
  rw [hu] at hx
  obtain ⟨m, e, hm, hlog, hlo, hhi⟩ := hx
  exact ⟨m, e, hm, rfl, hlog, hlo, hhi⟩

theorem Moderate.pos (hx : Moderate r x) : 0.0 < x := by
  obtain ⟨m, e, hm, hu, -⟩ := hx.exists_unpack
  rw [pos_iff, hu]
  exact .finite m e hm

theorem moderate_pack {u : UnpackedFloat} {lo hi : Int} (hu : Normal lo hi u) (hlo : -r ≤ lo) (hhi : hi ≤ r)
    (hr : r ≤ 971) : Moderate r (.ofModel (Float.Model.pack u)) := by
  have hu' : Normal (-r) r u := hu.mono hlo hhi
  show Normal (-r) r (Float.Model.pack u).unpack
  rw [unpack_pack (hu'.mono (by omega) hr)]
  exact hu'

/-! ### Arithmetic -/

theorem moderate_mul (hx : Moderate r x) (hy : Moderate s y) (h : r + s + 54 ≤ 971) :
    Moderate (r + s + 54) (x * y) := by
  obtain ⟨m, e, hm, hu, hmlog, helo, hehi⟩ := hx.exists_unpack
  obtain ⟨n, f, hn, hv, hnlog, hflo, hfhi⟩ := hy.exists_unpack
  obtain ⟨hmlow, hmhigh⟩ := (Nat.log2_eq_iff hm.ne').1 hmlog
  obtain ⟨hnlow, hnhigh⟩ := (Nat.log2_eq_iff hn.ne').1 hnlog
  have hmn : m * n ≠ 0 := Nat.mul_ne_zero hm.ne' hn.ne'
  have hlow : 104 ≤ (m * n).log2 := (Nat.le_log2 hmn).2 (by
    calc 2 ^ 104 = 2 ^ 52 * 2 ^ 52 := by decide
      _ ≤ m * n := Nat.mul_le_mul hmlow hnlow)
  have hhigh : (m * n).log2 < 106 := (Nat.log2_lt hmn).2 (by
    calc m * n < 2 ^ 53 * 2 ^ 53 := Nat.mul_lt_mul'' hmhigh hnhigh
      _ = 2 ^ 106 := by decide)
  have hround := roundWithAccuracy_normal (m := m * n) (e := e + f) (by omega) (by omega) .exact
  show Moderate _ (.ofModel (Float.Model.pack (mul binary64 x.toModel.unpack y.toModel.unpack)))
  rw [hu, hv]
  exact moderate_pack hround (by omega) (by omega) h

theorem moderate_div (hx : Moderate r x) (hy : Moderate s y) (h : r + s + 54 ≤ 971) :
    Moderate (r + s + 54) (x / y) := by
  obtain ⟨m, e, hm, hu, hmlog, helo, hehi⟩ := hx.exists_unpack
  obtain ⟨n, f, hn, hv, hnlog, hflo, hfhi⟩ := hy.exists_unpack
  obtain ⟨hmlow, hmhigh⟩ := (Nat.log2_eq_iff hm.ne').1 hmlog
  obtain ⟨hnlow, hnhigh⟩ := (Nat.log2_eq_iff hn.ne').1 hnlog
  have htarget : min (e - f) (binary64.targetExponent (totalExponent m e - totalExponent n f)) = e - f - 53 := by
    show min (e - f) (max (((m.log2 + 1 + e : Int) - (n.log2 + 1 + f : Int)) - ((1 + 52 : Nat) : Int))
      (3 - 2 ^ (11 - 1) - ((1 + 52 : Nat) : Int))) = _
    omega
  have hshift : (e - f - (e - f - 53)).toNat = 53 := by omega
  have hlow : 2 ^ 52 ≤ m * 2 ^ 53 / n := by
    rw [Nat.le_div_iff_mul_le hn]
    calc 2 ^ 52 * n ≤ 2 ^ 52 * 2 ^ 53 := Nat.mul_le_mul_left _ hnhigh.le
      _ ≤ m * 2 ^ 53 := Nat.mul_le_mul_right _ hmlow
  have hhigh : m * 2 ^ 53 / n < 2 ^ 54 := by
    rw [Nat.div_lt_iff_lt_mul hn]
    calc m * 2 ^ 53 < 2 ^ 53 * 2 ^ 53 := Nat.mul_lt_mul_of_pos_right hmhigh (Nat.two_pow_pos 53)
      _ = 2 ^ 54 * 2 ^ 52 := by decide
      _ ≤ 2 ^ 54 * n := Nat.mul_le_mul_left _ hnlow
  have hq : m * 2 ^ 53 / n ≠ 0 := by omega
  have hlog : 52 ≤ (m * 2 ^ 53 / n).log2 := (Nat.le_log2 hq).2 hlow
  have hlog' : (m * 2 ^ 53 / n).log2 < 54 := (Nat.log2_lt hq).2 hhigh
  have hround := roundWithAccuracy_normal (m := m * 2 ^ 53 / n) (e := e - f - 53) hlog (by omega)
    (accuracyOfFraction (m * 2 ^ 53 % n) n)
  show Moderate _ (.ofModel (Float.Model.pack (div binary64 x.toModel.unpack y.toModel.unpack)))
  rw [hu, hv]
  unfold div divCore
  dsimp only
  rw [htarget, hshift, Nat.shiftLeft_eq]
  exact moderate_pack hround (by omega) (by omega) h

theorem moderate_add (hx : Moderate r x) (hy : Moderate r y) (h : r + 2 ≤ 971) : Moderate (r + 2) (x + y) := by
  obtain ⟨m, e, hm, hu, hmlog, helo, hehi⟩ := hx.exists_unpack
  obtain ⟨n, f, hn, hv, hnlog, hflo, hfhi⟩ := hy.exists_unpack
  show Moderate _ (.ofModel (Float.Model.pack (add binary64 x.toModel.unpack y.toModel.unpack)))
  rw [hu, hv]
  unfold add decreaseExponent
  dsimp only
  -- both are written with the smaller exponent
  generalize hj : (e - min e f).toNat = j
  generalize hk : (f - min e f).toNat = k
  have hmj : (m <<< j).log2 = 52 + j := by rw [log2_shiftLeft hm.ne' j, hmlog]
  have hnk : (n <<< k).log2 = 52 + k := by rw [log2_shiftLeft hn.ne' k, hnlog]
  have hm0 : m <<< j ≠ 0 := by rw [Nat.shiftLeft_eq]; positivity
  have hn0 : n <<< k ≠ 0 := by rw [Nat.shiftLeft_eq]; positivity
  have hlow : 52 + max j k ≤ (m <<< j + n <<< k).log2 := by
    have hlowm := le_log2_add (n := n <<< k) hm0
    have hlown := le_log2_add (n := m <<< j) hn0
    rw [Nat.add_comm] at hlown
    omega
  have hhigh := log2_add_le (n := n <<< k) hm0
  rw [hmj, hnk] at hhigh
  have hsum : 0 < m <<< j + n <<< k := Nat.add_pos_left (Nat.pos_of_ne_zero hm0) _
  have hround := round_normal (m := m <<< j + n <<< k) (e := min e f) hsum.ne' (by omega)
  rw [← normalize_natCast hsum, Int.natCast_add] at hround
  exact moderate_pack hround (by omega) (by omega) h

theorem moderate_zero_add (hz : z.toModel.unpack = .zero .positive) (hx : Moderate r x) (hr : r ≤ 971) :
    Moderate r (z + x) := by
  obtain ⟨m, e, hm, hu, hlog, hlo, hhi⟩ := hx.exists_unpack
  show Moderate _ (.ofModel (Float.Model.pack (add binary64 z.toModel.unpack x.toModel.unpack)))
  rw [hz, hu]
  exact moderate_pack (.mk m e hm hlog hlo hhi) (le_refl _) (le_refl _) hr

theorem moderate_add_zero (hz : z.toModel.unpack = .zero .positive) (hx : Moderate r x) (hr : r ≤ 971) :
    Moderate r (x + z) := by
  obtain ⟨m, e, hm, hu, hlog, hlo, hhi⟩ := hx.exists_unpack
  show Moderate _ (.ofModel (Float.Model.pack (add binary64 x.toModel.unpack z.toModel.unpack)))
  rw [hz, hu]
  exact moderate_pack (.mk m e hm hlog hlo hhi) (le_refl _) (le_refl _) hr

theorem unpack_zero_div (hz : z.toModel.unpack = .zero .positive) (hx : Moderate r x) :
    (z / x).toModel.unpack = .zero .positive := by
  obtain ⟨m, e, hm, hu, -⟩ := hx.exists_unpack
  have hquot : div binary64 (.zero .positive) (.finite .positive m e hm) = .zero .positive := rfl
  show (Float.Model.pack (div binary64 z.toModel.unpack x.toModel.unpack)).unpack = _
  rw [hz, hu, hquot]
  rfl

/-! ### Counts -/

theorem unpack_ofNat_zero : (Float.ofNat 0).toModel.unpack = .zero .positive := rfl

theorem moderate_toFloat (hm : 0 < m) (h : m < 2 ^ 53) : Moderate 52 m.toUInt64.toFloat := by
  have hm64 : m.toUInt64.toNat = m := Nat.mod_eq_of_lt (by omega)
  have hlog : m.log2 < 53 := (Nat.log2_lt hm.ne').2 h
  have hround := round_normal (e := 0) hm.ne' (by omega)
  show Moderate _ (.ofModel (Float.Model.pack
    (UnpackedFloat.normalize binary64 ((m.toUInt64.toNat : Nat) : Int) 0 .positive)))
  rw [hm64, normalize_natCast hm]
  exact moderate_pack hround (by omega) (by omega) (by decide)

theorem moderate_one : Moderate 52 (Float.ofBits 0x3FF0000000000000) := by
  have hone : (Float.ofBits 0x3FF0000000000000).toModel.unpack =
      .finite .positive (2 ^ 52) (-52) (by decide) := rfl
  unfold Moderate
  rw [hone]
  exact .mk _ _ _ (by rw [Nat.log2_two_pow]) (by decide) (by decide)

theorem ofScientific_zero_exponent (hm : 0 < m) :
    UnpackedFloat.ofScientific binary64 m 0 = roundWithAccuracy binary64 .positive (m <<< 53) (-53) .exact := by
  have hhuge : ¬ (0 : Int) > 2 ^ 11 := by decide
  have htiny : ¬ (0 : Int) < -(2 ^ 11 + (m.log2 : Int)) := by omega
  unfold UnpackedFloat.ofScientific
  rw [dif_neg hm.ne', if_neg hhuge, if_neg htiny, if_pos (Int.le_refl 0)]
  show roundWithAccuracy binary64 .positive ((m <<< 53) * 1) (-53) .exact = _
  rw [Nat.mul_one]

/-- A count that has at most 53 digits is converted and multiplied by one; a longer one is rounded. -/
theorem moderate_ofNat (hm : 0 < m) (h : m < 2 ^ 64) : Moderate 158 (Float.ofNat m) := by
  by_cases hsmall : m < 2 ^ 53
  · have hprod : Float.ofNat m = m.toUInt64.toFloat * Float.ofBits 0x3FF0000000000000 := by
      show Float.ofScientific m false 0 = _
      unfold Float.ofScientific
      rw [dif_pos ⟨hsmall, by decide⟩]
      rfl
    rw [hprod]
    exact moderate_mul (moderate_toFloat hm hsmall) moderate_one (by decide)
  · have hlong : Float.ofNat m = .ofModel (Float.Model.pack (UnpackedFloat.ofScientific binary64 m 0)) := by
      show Float.ofScientific m false 0 = _
      unfold Float.ofScientific
      rw [dif_neg (not_and_of_not_left _ hsmall)]
      rfl
    have hlow : 53 ≤ m.log2 := (Nat.le_log2 hm.ne').2 (Nat.le_of_not_lt hsmall)
    have hhigh : m.log2 < 64 := (Nat.log2_lt hm.ne').2 h
    have hlog := log2_shiftLeft hm.ne' 53
    have hround := roundWithAccuracy_normal (m := m <<< 53) (e := -53) (by omega) (by omega) .exact
    rw [hlong, ofScientific_zero_exponent hm]
    exact moderate_pack hround (by omega) (by omega) (by decide)

end Magnitude

end StreamMux
