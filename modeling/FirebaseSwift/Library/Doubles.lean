import Mathlib.Data.Int.Log
import Mathlib.Data.Rat.Floor
import Mathlib.Algebra.Order.Field.Power
import Mathlib.Tactic.Positivity
import Mathlib.Tactic.FieldSimp

/-! Numbers as doubles: rounding to the nearest double with ties to even, and the conversion to 64-bit integers
that stops outside their range. The exponent has a least value and no greatest one, since what is too large for
a double is too large for an integer. -/

namespace Doubles

/-- The unit in the last place -/
def ulp (q : ℚ) : ℚ := 2 ^ (max (Int.log 2 |q|) (-1022) - 52)

/-- The nearest integer, the even one of two. -/
def roundHalfEven (q : ℚ) : ℤ :=
  if q - ⌊q⌋ < 1 / 2 then ⌊q⌋
  else if 1 / 2 < q - ⌊q⌋ then ⌊q⌋ + 1
  else if ⌊q⌋ % 2 = 0 then ⌊q⌋
  else ⌊q⌋ + 1

def round (q : ℚ) : ℚ := roundHalfEven (q / ulp q) * ulp q

/-- `Int(_:)`, rounded towards zero -/
def toInt (q : ℚ) : Option ℤ :=
  if -2 ^ 63 - 1 < q ∧ q < 2 ^ 63 then some (q.num.tdiv q.den) else none

theorem ulp_pos (q : ℚ) : 0 < ulp q := by
  unfold ulp
  positivity

variable {q : ℚ}

theorem ulp_eq {e : ℤ} (he : -1022 ≤ e) (hlow : 2 ^ e ≤ q) (hhigh : q < 2 ^ (e + 1)) : ulp q = 2 ^ (e - 52) := by
  have hpos : 0 < q := (by positivity : (0 : ℚ) < 2 ^ e).trans_le hlow
  have hlog : Int.log 2 |q| = e := by
    rw [abs_of_pos hpos]
    refine le_antisymm ?_ ?_
    · exact Int.lt_add_one_iff.mp ((Int.lt_zpow_iff_log_lt (by norm_num) hpos).mp (by exact_mod_cast hhigh))
    · exact (Int.zpow_le_iff_le_log (by norm_num) hpos).mp (by exact_mod_cast hlow)
  rw [ulp, hlog, max_eq_left he]

theorem ulp_le {e : ℤ} (he : -1022 ≤ e) (hpos : 0 < q) (hhigh : q < 2 ^ (e + 1)) : ulp q ≤ 2 ^ (e - 52) := by
  have hlog : Int.log 2 |q| ≤ e := by
    rw [abs_of_pos hpos]
    exact Int.lt_add_one_iff.mp ((Int.lt_zpow_iff_log_lt (by norm_num) hpos).mp (by exact_mod_cast hhigh))
  exact zpow_le_zpow_right₀ (by norm_num) (by omega)

/-! ### Rounding -/

theorem roundHalfEven_intCast (n : ℤ) : roundHalfEven n = n := by
  rw [roundHalfEven, Int.floor_intCast, sub_self, if_pos (by norm_num)]

theorem floor_le_roundHalfEven (q : ℚ) : ⌊q⌋ ≤ roundHalfEven q := by
  unfold roundHalfEven
  split_ifs <;> omega

theorem roundHalfEven_le_floor_add_one (q : ℚ) : roundHalfEven q ≤ ⌊q⌋ + 1 := by
  unfold roundHalfEven
  split_ifs <;> omega

theorem round_zero : round 0 = 0 := by
  rw [round, zero_div]
  exact mul_eq_zero_of_left (by exact_mod_cast roundHalfEven_intCast 0) _

theorem round_nonneg (h : 0 ≤ q) : 0 ≤ round q := by
  have hinteger : 0 ≤ roundHalfEven (q / ulp q) :=
    (Int.floor_nonneg.mpr (div_nonneg h (ulp_pos q).le)).trans (floor_le_roundHalfEven _)
  exact mul_nonneg (by exact_mod_cast hinteger) (ulp_pos q).le

/-- Rounding adds at most one unit. -/
theorem round_le_add_ulp (q : ℚ) : round q ≤ q + ulp q := by
  have hpos := ulp_pos q
  have hinteger : (roundHalfEven (q / ulp q) : ℚ) ≤ q / ulp q + 1 := by
    have hle : ((roundHalfEven (q / ulp q) : ℤ) : ℚ) ≤ ((⌊q / ulp q⌋ + 1 : ℤ) : ℚ) := by
      exact_mod_cast roundHalfEven_le_floor_add_one _
    push_cast at hle
    linarith [Int.floor_le (q / ulp q)]
  calc round q ≤ (q / ulp q + 1) * ulp q := mul_le_mul_of_nonneg_right hinteger hpos.le
    _ = q + ulp q := by field_simp

theorem zpow_eq_mul (j : ℕ) (e : ℤ) : (2 : ℚ) ^ e = 2 ^ j * 2 ^ (e - j) := by
  rw [← zpow_natCast, ← zpow_add₀ (by norm_num), add_sub_cancel]

/-- A power of two that is not above a number is not above what it is rounded to. -/
theorem zpow_le_round {e : ℤ} (he : -1022 ≤ e) (h : 2 ^ e ≤ q) : 2 ^ e ≤ round q := by
  have hpos : 0 < q := (by positivity : (0 : ℚ) < 2 ^ e).trans_le h
  have hlog : e ≤ Int.log 2 q := (Int.zpow_le_iff_le_log (by norm_num) hpos).mp (by exact_mod_cast h)
  have hlow : (2 : ℚ) ^ Int.log 2 q ≤ q := by exact_mod_cast Int.zpow_log_le_self (by norm_num) hpos
  have hhigh : q < (2 : ℚ) ^ (Int.log 2 q + 1) := by
    exact_mod_cast Int.lt_zpow_succ_log_self (by norm_num : 1 < 2) q
  have hsplit : (2 : ℚ) ^ Int.log 2 q = 2 ^ 52 * 2 ^ (Int.log 2 q - 52) := zpow_eq_mul 52 _
  have hdigits : (2 : ℤ) ^ 52 ≤ ⌊q / 2 ^ (Int.log 2 q - 52)⌋ := by
    rw [Int.le_floor, le_div_iff₀ (by positivity)]
    rw [Int.cast_pow, Int.cast_ofNat, ← hsplit]
    exact hlow
  have hinteger : (2 : ℚ) ^ 52 ≤ roundHalfEven (q / 2 ^ (Int.log 2 q - 52)) := by
    exact_mod_cast hdigits.trans (floor_le_roundHalfEven _)
  calc (2 : ℚ) ^ e ≤ 2 ^ Int.log 2 q := zpow_le_zpow_right₀ (by norm_num) hlog
    _ = 2 ^ 52 * 2 ^ (Int.log 2 q - 52) := hsplit
    _ ≤ roundHalfEven (q / 2 ^ (Int.log 2 q - 52)) * 2 ^ (Int.log 2 q - 52) :=
        mul_le_mul_of_nonneg_right hinteger (by positivity)
    _ = round q := by rw [round, ulp_eq (he.trans hlog) hlow hhigh]

/-- A number with 53 digits is a double. -/
theorem round_of_normal {m : ℕ} {k : ℤ} (hlow : 2 ^ 52 ≤ m) (hhigh : m < 2 ^ 53) (hk : -1074 ≤ k) :
    round (m * 2 ^ k) = m * 2 ^ k := by
  have hpow : (0 : ℚ) < 2 ^ k := by positivity
  have hulp : ulp (m * 2 ^ k) = 2 ^ (k + 52 - 52) := by
    have hlow' : (2 : ℚ) ^ 52 ≤ m := by exact_mod_cast hlow
    have hhigh' : (m : ℚ) < 2 ^ 53 := by exact_mod_cast hhigh
    refine ulp_eq (by omega) ?_ ?_
    · rw [show k + 52 = 52 + k by ring, zpow_add₀ (by norm_num)]
      exact mul_le_mul_of_nonneg_right (by exact_mod_cast hlow') hpow.le
    · rw [show k + 52 + 1 = 53 + k by ring, zpow_add₀ (by norm_num)]
      exact mul_lt_mul_of_pos_right (by exact_mod_cast hhigh') hpow
  rw [round, hulp, add_sub_cancel_right, mul_div_assoc, div_self hpow.ne', mul_one]
  congr 1
  exact_mod_cast congrArg (Int.cast (R := ℚ)) (roundHalfEven_intCast m)

/-- Integers with at most 53 digits are doubles. -/
theorem round_natCast {n : ℕ} (hn : n < 2 ^ 53) : round n = n := by
  rcases Nat.eq_zero_or_pos n with rfl | hpos
  · exact_mod_cast round_zero
  · have hlog : Nat.log 2 n ≤ 52 := Nat.le_of_lt_succ (Nat.log_lt_of_lt_pow hpos.ne' hn)
    have hlow : 2 ^ 52 ≤ n * 2 ^ (52 - Nat.log 2 n) := by
      calc 2 ^ 52 = 2 ^ Nat.log 2 n * 2 ^ (52 - Nat.log 2 n) := by rw [← pow_add, Nat.add_sub_cancel' hlog]
        _ ≤ n * 2 ^ (52 - Nat.log 2 n) := Nat.mul_le_mul_right _ (Nat.pow_log_le_self 2 hpos.ne')
    have hhigh : n * 2 ^ (52 - Nat.log 2 n) < 2 ^ 53 := by
      calc n * 2 ^ (52 - Nat.log 2 n) < 2 ^ (Nat.log 2 n + 1) * 2 ^ (52 - Nat.log 2 n) :=
            Nat.mul_lt_mul_of_pos_right (Nat.lt_pow_succ_log_self (by norm_num) n) (by positivity)
        _ = 2 ^ 53 := by
            rw [← pow_add]
            congr 1
            omega
    have hnormal := round_of_normal hlow hhigh (k := Nat.log 2 n - 52) (by omega)
    have hself : ((n * 2 ^ (52 - Nat.log 2 n) : ℕ) : ℚ) * 2 ^ ((Nat.log 2 n : ℤ) - 52) = n := by
      push_cast
      rw [mul_assoc, ← zpow_natCast, ← zpow_add₀ (by norm_num), Nat.cast_sub hlog]
      push_cast
      rw [show (52 : ℤ) - Nat.log 2 n + (Nat.log 2 n - 52) = 0 by ring, zpow_zero, mul_one]
    rw [hself] at hnormal
    exact hnormal

/-! ### Integers -/

theorem toInt_zero : toInt 0 = some 0 := by
  rw [toInt, if_pos (by norm_num)]
  rfl

theorem toInt_of_nonneg (h : 0 ≤ q) (hlarge : q < 2 ^ 63) : toInt q = some ⌊q⌋ := by
  rw [toInt, if_pos ⟨by linarith, hlarge⟩, Rat.floor_def', Int.tdiv_eq_ediv_of_nonneg (Rat.num_nonneg.mpr h)]

end Doubles
