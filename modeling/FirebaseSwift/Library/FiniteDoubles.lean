import FirebaseSwift.Library.Doubles
import Mathlib.Tactic.Linarith

/-! The finite doubles as they are stored, with their exact values. Rounding an integer to a double passes over no
double: a double that is at most the integer is at most what it is rounded to, and one that is at least the integer
is at least that. -/

namespace Doubles

/-! ### Rounding does not pass over a double -/

theorem roundHalfEven_le {q : ℚ} {m : ℤ} (h : q ≤ m) : roundHalfEven q ≤ m := by
  rcases h.lt_or_eq with hlt | rfl
  · have hfloor : ⌊q⌋ < m := by exact_mod_cast (Int.floor_le q).trans_lt hlt
    exact (roundHalfEven_le_floor_add_one q).trans hfloor
  · exact (roundHalfEven_intCast m).le

theorem le_roundHalfEven {q : ℚ} {m : ℤ} (h : m ≤ q) : m ≤ roundHalfEven q :=
  (Int.le_floor.mpr h).trans (floor_le_roundHalfEven q)

variable (q : ℚ) {d : ℚ}

theorem roundHalfEven_neg : roundHalfEven (-q) = -roundHalfEven q := by
  by_cases hinteger : q = ⌊q⌋
  · rw [hinteger, roundHalfEven_intCast, ← Int.cast_neg, roundHalfEven_intCast]
  · have hlow : (⌊q⌋ : ℚ) < q := lt_of_le_of_ne (Int.floor_le q) (Ne.symm hinteger)
    have hhigh : q < ⌊q⌋ + 1 := Int.lt_floor_add_one q
    have hfloor : ⌊-q⌋ = -⌊q⌋ - 1 := by
      rw [Int.floor_eq_iff]
      push_cast
      constructor <;> linarith
    unfold roundHalfEven
    rw [hfloor]
    push_cast
    split_ifs <;> first | omega | (exfalso; linarith)

theorem ulp_neg : ulp (-q) = ulp q := by
  rw [ulp, ulp, abs_neg]

theorem round_neg : round (-q) = -round q := by
  rw [round, round, ulp_neg, neg_div, roundHalfEven_neg]
  push_cast
  ring

/-- The value of a double, its exponent being unbounded above. -/
def IsDouble (d : ℚ) : Prop := ∃ m k : ℤ, |m| < 2 ^ 53 ∧ -1074 ≤ k ∧ d = m * 2 ^ k

theorem IsDouble.neg (h : IsDouble d) : IsDouble (-d) := by
  obtain ⟨m, k, hm, hk, rfl⟩ := h
  exact ⟨-m, k, by rwa [abs_neg], hk, by push_cast; ring⟩

/-- A double at least as large as a power of two is a multiple of the unit of the numbers from there on. -/
theorem IsDouble.multiple (h : IsDouble d) {e : ℤ} (hd : e = -1022 ∨ 2 ^ e ≤ d) : ∃ n : ℤ, d = n * 2 ^ (e - 52) := by
  obtain ⟨m, k, hm, hk, rfl⟩ := h
  have hscale : e - 52 ≤ k := by
    rcases hd with rfl | hd
    · omega
    · have hm' : (m : ℚ) < 2 ^ (53 : ℤ) := by exact_mod_cast (le_abs_self m).trans_lt hm
      have hlt : (2 : ℚ) ^ e < 2 ^ (53 + k) := by
        calc (2 : ℚ) ^ e ≤ m * 2 ^ k := hd
          _ < 2 ^ (53 : ℤ) * 2 ^ k := mul_lt_mul_of_pos_right hm' (by positivity)
          _ = 2 ^ (53 + k) := (zpow_add₀ (by norm_num) _ _).symm
      have := (zpow_lt_zpow_iff_right₀ (by norm_num : (1 : ℚ) < 2)).mp hlt
      omega
  obtain ⟨j, hj⟩ := Int.le.dest hscale
  refine ⟨m * 2 ^ j, ?_⟩
  push_cast
  rw [mul_assoc, ← zpow_natCast, ← zpow_add₀ (by norm_num), ← hj]
  congr 2
  ring

theorem ulp_eq_max : ulp q = 2 ^ (max (Int.log 2 |q|) (-1022) - 52) := rfl

/-- A double that is not below a number is not below what it is rounded to. -/
theorem round_le_of_pos {q : ℚ} (hq : 0 < q) (hd : IsDouble d) (h : q ≤ d) : round q ≤ d := by
  have hunit : max (Int.log 2 |q|) (-1022) = -1022 ∨ (2 : ℚ) ^ max (Int.log 2 |q|) (-1022) ≤ d := by
    rcases le_total (Int.log 2 |q|) (-1022) with hle | hle
    · exact .inl (max_eq_right hle)
    · right
      rw [max_eq_left hle, abs_of_pos hq]
      exact le_trans (by exact_mod_cast Int.zpow_log_le_self (by norm_num) hq) h
  obtain ⟨n, rfl⟩ := hd.multiple hunit
  have hpos := ulp_pos q
  rw [← ulp_eq_max] at h ⊢
  have hle : roundHalfEven (q / ulp q) ≤ n := roundHalfEven_le ((div_le_iff₀ hpos).mpr h)
  exact mul_le_mul_of_nonneg_right (by exact_mod_cast hle) hpos.le

/-- A double that is not above a number is not above what it is rounded to. -/
theorem le_round_of_pos {q : ℚ} (hq : 0 < q) (hd : IsDouble d) (h : d ≤ q) : d ≤ round q := by
  by_cases hunit : max (Int.log 2 |q|) (-1022) = -1022 ∨ (2 : ℚ) ^ max (Int.log 2 |q|) (-1022) ≤ d
  · obtain ⟨n, rfl⟩ := hd.multiple hunit
    have hpos := ulp_pos q
    rw [← ulp_eq_max] at h ⊢
    have hle : n ≤ roundHalfEven (q / ulp q) := le_roundHalfEven ((le_div_iff₀ hpos).mpr h)
    exact mul_le_mul_of_nonneg_right (by exact_mod_cast hle) hpos.le
  · -- the double is below the greatest power of two that is not above the number
    obtain ⟨hne, hlt⟩ := not_or.mp hunit
    have hlog : -1022 ≤ Int.log 2 |q| := by
      by_contra hlt
      exact hne (max_eq_right (not_le.mp hlt).le)
    rw [max_eq_left hlog, abs_of_pos hq, not_le] at hlt
    rw [abs_of_pos hq] at hlog
    exact hlt.le.trans (zpow_le_round hlog (by exact_mod_cast Int.zpow_log_le_self (by norm_num) hq))

theorem round_le {q : ℚ} (hd : IsDouble d) (h : q ≤ d) : round q ≤ d := by
  rcases lt_trichotomy q 0 with hneg | rfl | hpos
  · have hle := le_round_of_pos (neg_pos.mpr hneg) hd.neg (neg_le_neg h)
    rw [round_neg] at hle
    exact neg_le_neg_iff.mp hle
  · rw [round_zero]
    exact h
  · exact round_le_of_pos hpos hd h

theorem le_round {q : ℚ} (hd : IsDouble d) (h : d ≤ q) : d ≤ round q := by
  have hle := round_le hd.neg (neg_le_neg h)
  rw [round_neg] at hle
  exact neg_le_neg_iff.mp hle

theorem round_eq_of_isDouble (hd : IsDouble d) : round d = d :=
  le_antisymm (round_le hd le_rfl) (le_round hd le_rfl)

/-- An integer is rounded to an integer. -/
theorem exists_round_intCast (n : ℤ) : ∃ m : ℤ, round n = m := by
  by_cases hsmall : |n| < 2 ^ 53
  · exact ⟨n, round_eq_of_isDouble ⟨n, 0, hsmall, by norm_num, by rw [zpow_zero, mul_one]⟩⟩
  · have hlog : 53 ≤ Int.log 2 |(n : ℚ)| := by
      have hlow : (2 : ℚ) ^ (53 : ℤ) ≤ |(n : ℚ)| := by exact_mod_cast not_lt.mp hsmall
      have hpos : (0 : ℚ) < |(n : ℚ)| := lt_of_lt_of_le (by positivity) hlow
      exact (Int.zpow_le_iff_le_log (by norm_num) hpos).mp (by exact_mod_cast hlow)
    obtain ⟨j, hj⟩ := Int.le.dest (show (52 : ℤ) ≤ Int.log 2 |(n : ℚ)| by omega)
    refine ⟨roundHalfEven (n / ulp n) * 2 ^ j, ?_⟩
    rw [round, ulp_eq_max n, max_eq_left (by omega), ← hj, add_sub_cancel_left]
    push_cast
    rw [zpow_natCast]

end Doubles

/-! ### Finite doubles -/

/-- A double that is neither infinite nor no number: its sign, its exponent with the bias, and its fraction -/
structure FiniteDouble where
  negative : Bool
  exponent : ℕ
  fraction : ℕ
  exponent_lt : exponent < 2047
  fraction_lt : fraction < 2 ^ 52
deriving DecidableEq

namespace FiniteDouble

open Doubles

/-- The digits, with the leading one that is not stored -/
def significand (d : FiniteDouble) : ℕ := if d.exponent = 0 then d.fraction else 2 ^ 52 + d.fraction

def magnitude (d : FiniteDouble) : ℚ := d.significand * 2 ^ ((max d.exponent 1 : ℕ) - 1075 : ℤ)

def value (d : FiniteDouble) : ℚ := if d.negative then -d.magnitude else d.magnitude

/-- Doubles are compared by their values, so that both zeros are the same. -/
instance : LT FiniteDouble := ⟨fun d d' => d.value < d'.value⟩

instance : DecidableLT FiniteDouble := fun d d' => inferInstanceAs (Decidable (d.value < d'.value))

theorem isDouble_value (d : FiniteDouble) : IsDouble d.value := by
  have hdigits : d.significand < 2 ^ 53 := by
    have := d.fraction_lt
    unfold significand
    split_ifs <;> omega
  have hmagnitude : IsDouble d.magnitude := by
    refine ⟨d.significand, (max d.exponent 1 : ℕ) - 1075, ?_, by omega, by rw [magnitude]; push_cast; rfl⟩
    rw [Nat.abs_cast]
    exact_mod_cast hdigits
  unfold value
  split_ifs
  · exact hmagnitude.neg
  · exact hmagnitude

/-! ### Integers as doubles -/

/-- The digits of a natural number, rounded to those of a double -/
def roundedDigits (n : ℕ) : ℕ := (roundHalfEven (n / ulp n)).toNat

/-- The exponent and the fraction as one number, so that a carry of the digits goes into the exponent -/
def bitsOfNat (n : ℕ) : ℕ := if n = 0 then 0 else (1022 + Nat.log 2 n) * 2 ^ 52 + roundedDigits n

variable {n : ℕ} {d : FiniteDouble}

theorem ulp_natCast (hn : n ≠ 0) : ulp n = 2 ^ ((Nat.log 2 n : ℤ) - 52) := by
  refine ulp_eq (by omega) ?_ ?_
  · exact_mod_cast Nat.pow_log_le_self 2 hn
  · exact_mod_cast Nat.lt_pow_succ_log_self (by norm_num : 1 < 2) n

theorem natCast_roundedDigits (n : ℕ) : ((roundedDigits n : ℕ) : ℤ) = roundHalfEven (n / ulp n) :=
  Int.toNat_of_nonneg (le_roundHalfEven (by exact_mod_cast div_nonneg n.cast_nonneg (ulp_pos n).le))

/-- There are 53 digits, or the next power of two. -/
theorem roundedDigits_bounds (hn : n ≠ 0) : 2 ^ 52 ≤ roundedDigits n ∧ roundedDigits n ≤ 2 ^ 53 := by
  have hlow : (2 : ℚ) ^ (Nat.log 2 n : ℤ) ≤ n := by exact_mod_cast Nat.pow_log_le_self 2 hn
  have hhigh : (n : ℚ) ≤ 2 ^ ((Nat.log 2 n : ℤ) + 1) := by
    exact_mod_cast (Nat.lt_pow_succ_log_self (by norm_num : 1 < 2) n).le
  have hpos : (0 : ℚ) < 2 ^ ((Nat.log 2 n : ℤ) - 52) := by positivity
  constructor
  · have hle : (2 ^ 52 : ℤ) ≤ roundHalfEven (n / ulp n) := by
      refine le_roundHalfEven ?_
      rw [ulp_natCast hn, le_div_iff₀ hpos]
      rw [zpow_eq_mul 52] at hlow
      exact_mod_cast hlow
    rw [← natCast_roundedDigits] at hle
    exact_mod_cast hle
  · have hle : roundHalfEven (n / ulp n) ≤ (2 ^ 53 : ℤ) := by
      refine roundHalfEven_le ?_
      rw [ulp_natCast hn, div_le_iff₀ hpos]
      rw [zpow_eq_mul 53, show (Nat.log 2 n : ℤ) + 1 - (53 : ℕ) = Nat.log 2 n - 52 by push_cast; ring] at hhigh
      exact_mod_cast hhigh
    rw [← natCast_roundedDigits] at hle
    exact_mod_cast hle

theorem bitsOfNat_div_lt (h : n < 2 ^ 64) : bitsOfNat n / 2 ^ 52 < 2047 := by
  rw [Nat.div_lt_iff_lt_mul (by positivity), bitsOfNat]
  split_ifs with hn
  · norm_num
  · have hlog : Nat.log 2 n < 64 := Nat.log_lt_of_lt_pow hn h
    have hdigits := (roundedDigits_bounds hn).2
    omega

/-- A natural number below 2^64 with a sign -/
def ofNat (negative : Bool) (n : ℕ) (h : n < 2 ^ 64) : FiniteDouble where
  negative := negative
  exponent := bitsOfNat n / 2 ^ 52
  fraction := bitsOfNat n % 2 ^ 52
  exponent_lt := bitsOfNat_div_lt h
  fraction_lt := Nat.mod_lt _ (by positivity)

theorem magnitude_ofNat (negative : Bool) (h : n < 2 ^ 64) : (ofNat negative n h).magnitude = Doubles.round n := by
  rcases eq_or_ne n 0 with rfl | hn
  · have hzero : bitsOfNat 0 = 0 := rfl
    rw [magnitude, significand]
    simp only [ofNat, hzero, Nat.zero_div, Nat.zero_mod, if_true, Nat.cast_zero, zero_mul, round_zero]
  · obtain ⟨hlow, hhigh⟩ := roundedDigits_bounds hn
    have hround : Doubles.round n = roundedDigits n * 2 ^ ((Nat.log 2 n : ℤ) - 52) := by
      rw [Doubles.round, ← natCast_roundedDigits, ulp_natCast hn]
      push_cast
      rfl
    have hbits : bitsOfNat n = (1022 + Nat.log 2 n) * 2 ^ 52 + roundedDigits n := if_neg hn
    rw [hround, magnitude, significand]
    rcases hhigh.lt_or_eq with hdigits | hdigits
    · have hexponent : bitsOfNat n / 2 ^ 52 = 1023 + Nat.log 2 n := by omega
      have hfraction : bitsOfNat n % 2 ^ 52 = roundedDigits n - 2 ^ 52 := by omega
      simp only [ofNat, hexponent, hfraction]
      rw [if_neg (by omega), Nat.add_sub_cancel' hlow, max_eq_left (by omega)]
      congr 2
      push_cast
      ring
    · -- the carry makes the digits those of the next power of two
      have hexponent : bitsOfNat n / 2 ^ 52 = 1024 + Nat.log 2 n := by omega
      have hfraction : bitsOfNat n % 2 ^ 52 = 0 := by omega
      simp only [ofNat, hexponent, hfraction, hdigits]
      rw [if_neg (by omega), max_eq_left (by omega), zpow_eq_mul 1]
      push_cast
      ring_nf

/-- `Double(_:)` of a 64-bit integer -/
def ofInt64 (i : Int64) : FiniteDouble :=
  ofNat (decide (i.toInt < 0)) i.toInt.natAbs (by
    have hlow := i.le_toInt
    have hhigh := i.toInt_lt
    omega)

theorem value_ofInt64 (i : Int64) : (ofInt64 i).value = Doubles.round i.toInt := by
  rw [value, ofInt64, magnitude_ofNat]
  rcases lt_or_ge i.toInt 0 with hneg | hnonneg
  · have habs : (i.toInt.natAbs : ℚ) = -i.toInt := by
      rw [Nat.cast_natAbs, abs_of_neg hneg, Int.cast_neg]
    simp only [ofNat, hneg, decide_true, if_true, habs, round_neg, neg_neg]
  · have habs : (i.toInt.natAbs : ℚ) = i.toInt := by rw [Nat.cast_natAbs, abs_of_nonneg hnonneg]
    simp only [ofNat, not_lt.mpr hnonneg, decide_false, habs, Bool.false_eq_true, if_false]

/-- `Int64(exactly:)` -/
def exactInt64 (d : FiniteDouble) : Option Int64 :=
  if d.value.den = 1 ∧ -2 ^ 63 ≤ d.value.num ∧ d.value.num < 2 ^ 63 then some (Int64.ofInt d.value.num) else none

theorem exactInt64_eq_some_iff {i : Int64} : d.exactInt64 = some i ↔ d.value = i.toInt := by
  unfold exactInt64
  constructor
  · intro h
    split_ifs at h with hexact
    obtain ⟨hden, hlow, hhigh⟩ := hexact
    cases h
    rw [Int64.toInt_ofInt_of_le hlow hhigh]
    exact (Rat.den_eq_one_iff _).mp hden |>.symm
  · intro h
    have hlow := i.le_toInt
    have hhigh := i.toInt_lt
    rw [h, if_pos ⟨Rat.den_intCast _, by rw [Rat.num_intCast]; exact ⟨hlow, hhigh⟩⟩, Rat.num_intCast, Int64.ofInt_toInt]

/-- A double that a 64-bit integer is rounded to, and that is none itself, is above all of them. -/
theorem lt_value_of_exactInt64_eq_none {i : Int64} (hround : Doubles.round i.toInt = d.value)
    (hnone : d.exactInt64 = none) : (i.toInt : ℚ) < d.value := by
  obtain ⟨m, hm⟩ := exists_round_intCast i.toInt
  have hlarge : IsDouble (2 ^ 63) := ⟨2 ^ 52, 11, by norm_num, by norm_num, by norm_num⟩
  have hlow : -2 ^ 63 ≤ m := by
    have hle := le_round hlarge.neg (by exact_mod_cast i.le_toInt : -2 ^ 63 ≤ (i.toInt : ℚ))
    rw [hm] at hle
    exact_mod_cast hle
  rw [← hround, hm]
  by_contra hle
  have hhigh : m < 2 ^ 63 := lt_of_le_of_lt (by exact_mod_cast not_lt.mp hle) i.toInt_lt
  have hsome : d.exactInt64 = some (Int64.ofInt m) := by
    rw [exactInt64_eq_some_iff, Int64.toInt_ofInt_of_le hlow hhigh, ← hround, hm]
  rw [hnone] at hsome
  cases hsome

end FiniteDouble
