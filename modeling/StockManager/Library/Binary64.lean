import Mathlib.Algebra.Order.Floor.Ring
import Mathlib.Data.Int.Log
import Mathlib.Data.Rat.Floor
import Mathlib.Tactic.FieldSimp
import Mathlib.Tactic.Linarith
import Mathlib.Tactic.NormNum
import Mathlib.Tactic.Positivity

/-! # Doubles and rounding to the nearest one, ties to even -/

namespace Binary64

inductive Double
  | nan
  | infinite (negative : Bool)
  | finite (value : ℚ)
  deriving DecidableEq

def roundHalfEven (q : ℚ) : ℤ :=
  if q - ⌊q⌋ < 1 / 2 then ⌊q⌋
  else if 1 / 2 < q - ⌊q⌋ then ⌊q⌋ + 1
  else if ⌊q⌋ % 2 = 0 then ⌊q⌋ else ⌊q⌋ + 1

/-- The exponent of the last of the 53 bits -/
def unitExponent (q : ℚ) : ℤ := max (Int.log 2 |q| - 52) (-1074)

def nearest (q : ℚ) : ℚ := roundHalfEven (q / 2 ^ unitExponent q) * 2 ^ unitExponent q

def ofRat (q : ℚ) : Double :=
  if (2 : ℚ) ^ 1024 ≤ |nearest q| then .infinite (q < 0) else .finite (nearest q)

theorem roundHalfEven_intCast (n : ℤ) : roundHalfEven n = n := by
  rw [roundHalfEven, Int.floor_intCast, sub_self, if_pos (by norm_num)]

theorem floor_le_roundHalfEven (q : ℚ) : ⌊q⌋ ≤ roundHalfEven q := by
  rw [roundHalfEven]
  split_ifs <;> omega

theorem roundHalfEven_le (q : ℚ) : roundHalfEven q ≤ ⌈q⌉ := by
  rw [roundHalfEven]
  have hle := Int.floor_le_ceil q
  by_cases h : q - ⌊q⌋ < 1 / 2
  · rw [if_pos h]
    exact hle
  · rw [if_neg h]
    have hlt : ⌊q⌋ < ⌈q⌉ := by
      rw [Int.lt_ceil]
      push Not at h
      linarith
    split_ifs <;> omega

theorem roundHalfEven_nonpos {q : ℚ} (h : q ≤ 0) : roundHalfEven q ≤ 0 :=
  (roundHalfEven_le q).trans (Int.ceil_le.mpr (by exact_mod_cast h))

theorem nearest_intCast_of_unit {n : ℤ} (h : unitExponent n ≤ 0) : nearest n = n := by
  obtain ⟨k, hk⟩ := Int.eq_ofNat_of_zero_le (neg_nonneg.mpr h)
  have hpow : (2 : ℚ) ^ unitExponent (n : ℚ) = ((2 : ℚ) ^ k)⁻¹ := by
    rw [← neg_neg (unitExponent (n : ℚ)), hk, zpow_neg, zpow_natCast]
  have hscaled : (n : ℚ) / ((2 : ℚ) ^ k)⁻¹ = ((n * 2 ^ k : ℤ) : ℚ) := by
    push_cast
    rw [div_inv_eq_mul]
  rw [nearest, hpow, hscaled, roundHalfEven_intCast]
  push_cast
  field_simp

theorem nearest_intCast {n : ℤ} (h : |n| < 2 ^ 53) : nearest n = n := by
  refine nearest_intCast_of_unit (max_le ?_ (by norm_num))
  by_cases hzero : n = 0
  · rw [hzero]
    simp
  · have hpos : (0 : ℚ) < |(n : ℚ)| := abs_pos.mpr (by exact_mod_cast hzero)
    have hlt : |(n : ℚ)| < ((2 : ℕ) : ℚ) ^ (53 : ℤ) := by
      have hcast : |(n : ℚ)| < 2 ^ 53 := by exact_mod_cast h
      exact_mod_cast hcast
    have hlog := (Int.lt_zpow_iff_log_lt (by norm_num) hpos).mp hlt
    omega

theorem nearest_intCast_int (n : ℤ) : ∃ m : ℤ, nearest n = m := by
  by_cases h : unitExponent n ≤ 0
  · exact ⟨n, nearest_intCast_of_unit h⟩
  · obtain ⟨k, hk⟩ := Int.eq_ofNat_of_zero_le (not_le.mp h).le
    refine ⟨roundHalfEven (n / 2 ^ unitExponent n) * 2 ^ k, ?_⟩
    rw [nearest]
    push_cast
    rw [hk]
    norm_cast

theorem nearest_nonpos {q : ℚ} (h : q ≤ 0) : nearest q ≤ 0 := by
  have hpow : (0 : ℚ) < 2 ^ unitExponent q := zpow_pos (by norm_num) _
  have hround := roundHalfEven_nonpos (div_nonpos_of_nonpos_of_nonneg h hpow.le)
  exact mul_nonpos_of_nonpos_of_nonneg (by exact_mod_cast hround) hpow.le

end Binary64
