import StockManager.Library.Binary64

/-! # Decimal arithmetic with 28 significant digits, as Python's default context does it -/

namespace DecimalContext

def precision : ℕ := 28

/-- The exponent of the last digit that is kept -/
def lastPlace (q : ℚ) : ℤ := Int.log 10 |q| - 27

/-- The result of an operation: half-even to the precision -/
def round (q : ℚ) : ℚ := Binary64.roundHalfEven (q / 10 ^ lastPlace q) * 10 ^ lastPlace q

/-- `ROUND_HALF_UP`: ties away from zero -/
def roundHalfUp (q : ℚ) : ℤ := if 0 ≤ q then ⌊q + 1 / 2⌋ else -⌊-q + 1 / 2⌋

/-- A number cut to some decimal places -/
def toPlaces (rounding : ℚ → ℤ) (places : ℕ) (q : ℚ) : ℚ := rounding (q * 10 ^ places) / 10 ^ places

/-- `quantize` raises where the result has more digits than the precision. -/
def quantize (rounding : ℚ → ℤ) (places : ℕ) (q : ℚ) : Option ℚ :=
  if |rounding (q * 10 ^ places)| < 10 ^ precision then some (toPlaces rounding places q) else none

theorem quantize_eq_some {rounding : ℚ → ℤ} {places : ℕ} {q r : ℚ} (h : quantize rounding places q = some r) :
    r = toPlaces rounding places q := by
  rw [quantize] at h
  split at h
  next => exact (Option.some.inj h).symm
  next => exact absurd h (by simp)

theorem roundHalfUp_intCast (m : ℤ) : roundHalfUp (m : ℚ) = m := by
  have hfloor (k : ℤ) : ⌊(k : ℚ) + 1 / 2⌋ = k := by
    rw [Int.floor_eq_iff]
    constructor <;> linarith
  rw [roundHalfUp, hfloor, ← Int.cast_neg, hfloor]
  split <;> omega

theorem natAbs_roundHalfUp (q : ℚ) : ((roundHalfUp q).natAbs : ℤ) = ⌊|q| + 1 / 2⌋ := by
  rw [roundHalfUp]
  split
  next h =>
    rw [abs_of_nonneg h, Int.natAbs_of_nonneg (Int.floor_nonneg.mpr (by linarith))]
  next h =>
    push Not at h
    rw [abs_of_neg h, Int.natAbs_neg, Int.natAbs_of_nonneg (Int.floor_nonneg.mpr (by linarith))]

theorem toPlaces_roundHalfUp_eq {places : ℕ} {q : ℚ} {m : ℤ} (h : q * 10 ^ places = m) :
    toPlaces roundHalfUp places q = q := by
  rw [toPlaces, h, roundHalfUp_intCast, ← h]
  field_simp

theorem log_mul_zpow {q : ℚ} (hq : q ≠ 0) (k : ℤ) : Int.log 10 |q * 10 ^ k| = Int.log 10 |q| + k := by
  have hpos : 0 < |q| := abs_pos.mpr hq
  have hten : (0 : ℚ) < 10 ^ k := zpow_pos (by norm_num) k
  have habs : |q * 10 ^ k| = |q| * 10 ^ k := by rw [abs_mul, abs_of_pos hten]
  have hlow : ((10 : ℕ) : ℚ) ^ Int.log 10 |q| ≤ |q| := Int.zpow_log_le_self (by norm_num) hpos
  have hhigh : |q| < ((10 : ℕ) : ℚ) ^ (Int.log 10 |q| + 1) := Int.lt_zpow_succ_log_self (by norm_num) _
  rw [Nat.cast_ofNat] at hlow hhigh
  apply le_antisymm
  · have hlt : |q| * 10 ^ k < ((10 : ℕ) : ℚ) ^ (Int.log 10 |q| + k + 1) := by
      rw [Nat.cast_ofNat, show Int.log 10 |q| + k + 1 = Int.log 10 |q| + 1 + k by ring, zpow_add₀ (by norm_num)]
      exact mul_lt_mul_of_pos_right hhigh hten
    rw [habs]
    have hlog := (Int.lt_zpow_iff_log_lt (by norm_num) (mul_pos hpos hten)).mp hlt
    omega
  · rw [habs, ← Int.zpow_le_iff_le_log (by norm_num) (mul_pos hpos hten), Nat.cast_ofNat,
      zpow_add₀ (by norm_num)]
    exact mul_le_mul_of_nonneg_right hlow hten.le

theorem round_mul_zpow (q : ℚ) (k : ℤ) : round (q * 10 ^ k) = round q * 10 ^ k := by
  by_cases hq : q = 0
  · rw [hq, zero_mul]
    simp [round, Binary64.roundHalfEven]
  · have hplace : lastPlace (q * 10 ^ k) = lastPlace q + k := by
      rw [lastPlace, log_mul_zpow hq, lastPlace]
      ring
    have hten : (10 : ℚ) ^ k ≠ 0 := zpow_ne_zero k (by norm_num)
    rw [round, hplace, zpow_add₀ (by norm_num), mul_div_mul_right _ _ hten, round, mul_assoc]

theorem lastPlace_nonpos {m : ℤ} (h : |m| < 10 ^ precision) : lastPlace m ≤ 0 := by
  by_cases hm : m = 0
  · simp [hm, lastPlace]
  · have hpos : (0 : ℚ) < |(m : ℚ)| := by positivity
    have hlt : |(m : ℚ)| < ((10 : ℕ) : ℚ) ^ (28 : ℤ) := by
      rw [← Int.cast_abs]
      exact_mod_cast h
    have hlog := (Int.lt_zpow_iff_log_lt (by norm_num) hpos).mp hlt
    rw [lastPlace]
    omega

theorem round_intCast {m : ℤ} (h : |m| < 10 ^ precision) : round (m : ℚ) = m := by
  obtain ⟨k, hk⟩ := Int.eq_ofNat_of_zero_le (neg_nonneg.mpr (lastPlace_nonpos h))
  have hpow : (10 : ℚ) ^ lastPlace (m : ℚ) = ((10 : ℚ) ^ k)⁻¹ := by
    rw [← neg_neg (lastPlace (m : ℚ)), hk, zpow_neg]
    norm_cast
  have hscaled : (m : ℚ) / 10 ^ lastPlace (m : ℚ) = ((m * 10 ^ k : ℤ) : ℚ) := by
    rw [hpow, div_inv_eq_mul]
    norm_cast
  rw [round, hscaled, Binary64.roundHalfEven_intCast, hpow]
  push_cast
  field_simp

theorem round_eq_self {m : ℤ} (h : |m| < 10 ^ precision) (k : ℤ) : round (m * 10 ^ k) = m * 10 ^ k := by
  rw [round_mul_zpow, round_intCast h]

theorem round_between {q : ℚ} {a b : ℤ} (ha : a * 10 ^ lastPlace q ≤ q) (hb : q ≤ b * 10 ^ lastPlace q) :
    a * 10 ^ lastPlace q ≤ round q ∧ round q ≤ b * 10 ^ lastPlace q := by
  have hten : (0 : ℚ) < 10 ^ lastPlace q := zpow_pos (by norm_num) _
  have hfloor : a ≤ ⌊q / 10 ^ lastPlace q⌋ := Int.le_floor.mpr ((le_div_iff₀ hten).mpr ha)
  have hceil : ⌈q / 10 ^ lastPlace q⌉ ≤ b := Int.ceil_le.mpr ((div_le_iff₀ hten).mpr hb)
  have hlow : a ≤ Binary64.roundHalfEven (q / 10 ^ lastPlace q) :=
    hfloor.trans (Binary64.floor_le_roundHalfEven _)
  have hhigh : Binary64.roundHalfEven (q / 10 ^ lastPlace q) ≤ b :=
    (Binary64.roundHalfEven_le _).trans hceil
  rw [round]
  exact ⟨mul_le_mul_of_nonneg_right (by exact_mod_cast hlow) hten.le,
    mul_le_mul_of_nonneg_right (by exact_mod_cast hhigh) hten.le⟩

theorem round_decade {q : ℚ} (hq : q ≠ 0) :
    10 ^ Int.log 10 |q| ≤ |round q| ∧ |round q| ≤ 10 ^ (Int.log 10 |q| + 1) ∧ (round q < 0 ↔ q < 0) := by
  have hlow : ((10 : ℕ) : ℚ) ^ Int.log 10 |q| ≤ |q| := Int.zpow_log_le_self (by norm_num) (abs_pos.mpr hq)
  have hhigh : |q| < ((10 : ℕ) : ℚ) ^ (Int.log 10 |q| + 1) := Int.lt_zpow_succ_log_self (by norm_num) _
  have hsplit : (10 : ℚ) ^ Int.log 10 |q| = 10 ^ 27 * 10 ^ lastPlace q := by
    rw [lastPlace, show (10 : ℚ) ^ 27 = 10 ^ (27 : ℤ) by norm_cast, ← zpow_add₀ (by norm_num)]
    congr 1
    ring
  have hnext : (10 : ℚ) ^ (Int.log 10 |q| + 1) = 10 ^ 28 * 10 ^ lastPlace q := by
    rw [zpow_add₀ (by norm_num), hsplit]
    ring
  have hten : (0 : ℚ) < 10 ^ 27 * 10 ^ lastPlace q := by
    rw [← hsplit]
    exact zpow_pos (by norm_num) _
  rw [Nat.cast_ofNat, hsplit] at hlow
  rw [Nat.cast_ofNat, hnext] at hhigh
  rw [hsplit, hnext]
  rcases lt_or_gt_of_ne hq with hneg | hpos
  · rw [abs_of_neg hneg] at hlow hhigh
    have hmem := @round_between q (-10 ^ 28) (-10 ^ 27) (by push_cast; linarith) (by push_cast; linarith)
    push_cast at hmem
    have hround : round q < 0 := by linarith
    rw [abs_of_neg hround]
    exact ⟨by linarith, by linarith, iff_of_true hround hneg⟩
  · rw [abs_of_pos hpos] at hlow hhigh
    have hmem := @round_between q (10 ^ 27) (10 ^ 28) (by push_cast; linarith) (by push_cast; linarith)
    push_cast at hmem
    have hround : 0 < round q := by linarith
    rw [abs_of_pos hround]
    exact ⟨hmem.1, hmem.2, iff_of_false hround.not_gt hpos.not_gt⟩

end DecimalContext
