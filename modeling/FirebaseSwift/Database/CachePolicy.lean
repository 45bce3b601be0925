import FirebaseSwift.Database.TrackedQueryManager

/-! The cache policies. The least recently used policy prunes a cache that is too large or has too many tracked
queries, one fifth of the queries at a time. Its percentage is the double next to 0.2. -/

namespace FirebaseSwift.Database

def kFServerUpdatesBetweenCacheSizeChecks : Int := 1000

def kFMaxNumberOfPrunableQueriesToKeep : Int := 1000

def kFPercentOfQueriesToPruneAtOnce : ℚ := Doubles.round (2 / 10)

def FLRUCachePolicy (maxSize : Int) : FCachePolicy :=
  ⟨fun cacheSize numTrackedQueries =>
      cacheSize > maxSize || numTrackedQueries > kFMaxNumberOfPrunableQueriesToKeep,
    fun serverUpdatesSinceLastCheck => serverUpdatesSinceLastCheck > kFServerUpdatesBetweenCacheSizeChecks,
    kFPercentOfQueriesToPruneAtOnce, kFMaxNumberOfPrunableQueriesToKeep⟩

def FNoCachePolicy : FCachePolicy :=
  ⟨fun _ _ => false, fun _ => false, 0, 2 ^ 63 - 1⟩

@[simp] theorem maxNumberOfQueriesToKeep_lru (maxSize : Int) :
    (FLRUCachePolicy maxSize).maxNumberOfQueriesToKeep = 1000 := rfl

/-- The double is a bit more than one fifth. -/
theorem kFPercentOfQueriesToPruneAtOnce_eq : kFPercentOfQueriesToPruneAtOnce = 7205759403792794 * 2 ^ (-55 : ℤ) := by
  have hulp : Doubles.ulp (2 / 10) = 2 ^ (-3 - 52 : ℤ) :=
    Doubles.ulp_eq (by norm_num) (by norm_num) (by norm_num)
  have hfloor : ⌊(2 / 10 : ℚ) / 2 ^ (-3 - 52 : ℤ)⌋ = 7205759403792793 := by
    rw [Int.floor_eq_iff]
    norm_num
  rw [kFPercentOfQueriesToPruneAtOnce, Doubles.round, hulp, Doubles.roundHalfEven, hfloor,
    if_neg (by norm_num), if_pos (by norm_num)]
  norm_num

theorem one_fifth_le_percent : 1 / 5 ≤ kFPercentOfQueriesToPruneAtOnce := by
  rw [kFPercentOfQueriesToPruneAtOnce_eq]
  norm_num

theorem percent_lt : kFPercentOfQueriesToPruneAtOnce < 9 / 40 := by
  rw [kFPercentOfQueriesToPruneAtOnce_eq]
  norm_num

/-- The percentage of so many queries -/
def numPercent (numPrunable : ℕ) : ℚ :=
  Doubles.round (Doubles.round numPrunable * kFPercentOfQueriesToPruneAtOnce)

theorem numPercent_nonneg (numPrunable : ℕ) : 0 ≤ numPercent numPrunable :=
  Doubles.round_nonneg (mul_nonneg (Doubles.round_nonneg numPrunable.cast_nonneg)
    ((by norm_num : (0 : ℚ) ≤ 1 / 5).trans one_fifth_le_percent))

variable {numPrunable : ℕ}

theorem numPercent_lt_one (h : numPrunable < 5) : numPercent numPrunable < 1 := by
  have hcast : (numPrunable : ℚ) ≤ 4 := by exact_mod_cast Nat.le_of_lt_succ h
  rw [numPercent, Doubles.round_natCast (by omega)]
  rcases Nat.eq_zero_or_pos numPrunable with rfl | hpos
  · rw [Nat.cast_zero, zero_mul, Doubles.round_zero]
    norm_num
  · have hposCast : (0 : ℚ) < numPrunable := by exact_mod_cast hpos
    have hpercent : 0 < kFPercentOfQueriesToPruneAtOnce :=
      (by norm_num : (0 : ℚ) < 1 / 5).trans_le one_fifth_le_percent
    have hsmall : (numPrunable : ℚ) * kFPercentOfQueriesToPruneAtOnce ≤ 9 / 10 := by
      calc (numPrunable : ℚ) * kFPercentOfQueriesToPruneAtOnce ≤ 4 * (9 / 40) :=
            mul_le_mul hcast percent_lt.le hpercent.le (by norm_num)
        _ = 9 / 10 := by norm_num
    have hulp := @Doubles.ulp_le (numPrunable * kFPercentOfQueriesToPruneAtOnce) (-1) (by norm_num)
      (mul_pos hposCast hpercent) (hsmall.trans_lt (by norm_num))
    have hround := Doubles.round_le_add_ulp (numPrunable * kFPercentOfQueriesToPruneAtOnce)
    norm_num at hulp
    linarith

theorem one_le_numPercent (h : 5 ≤ numPrunable) : 1 ≤ numPercent numPrunable := by
  have hcast : (5 : ℚ) ≤ Doubles.round numPrunable := by
    by_cases hsmall : numPrunable < 2 ^ 53
    · rw [Doubles.round_natCast hsmall]
      exact_mod_cast h
    · have hlarge : (2 : ℚ) ^ (53 : ℤ) ≤ numPrunable := by exact_mod_cast not_lt.mp hsmall
      exact le_trans (by norm_num) (Doubles.zpow_le_round (by norm_num) hlarge)
  refine Doubles.zpow_le_round (e := 0) (by norm_num) ?_
  calc (2 : ℚ) ^ (0 : ℤ) = 5 * (1 / 5) := by norm_num
    _ ≤ Doubles.round numPrunable * kFPercentOfQueriesToPruneAtOnce :=
        mul_le_mul hcast one_fifth_le_percent (by norm_num) (le_trans (by norm_num) hcast)

theorem numPercent_lt (h : numPrunable < 2 ^ 63) : numPercent numPrunable < 2 ^ 63 := by
  rcases lt_or_ge numPrunable 5 with hsmall | hlarge
  · exact (numPercent_lt_one hsmall).trans (by norm_num)
  · have hcast : (numPrunable : ℚ) < 2 ^ 63 := by exact_mod_cast h
    have hpos : (0 : ℚ) < numPrunable := by exact_mod_cast (by omega : 0 < numPrunable)
    have hpercent := percent_lt
    have hfifth := one_fifth_le_percent
    have hulp := @Doubles.ulp_le numPrunable 62 (by norm_num) hpos (by exact_mod_cast hcast)
    have hround := Doubles.round_le_add_ulp (numPrunable : ℚ)
    have hroundPos : 0 < Doubles.round numPrunable := by
      have hone : (2 : ℚ) ^ (0 : ℤ) ≤ numPrunable := by
        rw [zpow_zero]
        exact_mod_cast (by omega : 1 ≤ numPrunable)
      exact (by norm_num : (0 : ℚ) < 2 ^ (0 : ℤ)).trans_le (Doubles.zpow_le_round (by norm_num) hone)
    have hproduct : Doubles.round numPrunable * kFPercentOfQueriesToPruneAtOnce < 2 ^ (61 + 1 : ℤ) := by
      calc Doubles.round numPrunable * kFPercentOfQueriesToPruneAtOnce
          ≤ (2 ^ 63 + 2 ^ (62 - 52 : ℤ)) * (9 / 40) := by
            exact mul_le_mul (by linarith) hpercent.le (by linarith) (by positivity)
        _ < 2 ^ (61 + 1 : ℤ) := by norm_num
    have hulp' := @Doubles.ulp_le (Doubles.round numPrunable * kFPercentOfQueriesToPruneAtOnce) 61
      (by norm_num) (mul_pos hroundPos (by linarith)) hproduct
    have hround' := Doubles.round_le_add_ulp (Doubles.round numPrunable * kFPercentOfQueriesToPruneAtOnce)
    rw [numPercent]
    norm_num at hulp' hproduct ⊢
    linarith

theorem toInt_numPercent (h : numPrunable < 2 ^ 63) :
    Doubles.toInt (numPercent numPrunable) = some ⌊numPercent numPrunable⌋ :=
  Doubles.toInt_of_nonneg (numPercent_nonneg numPrunable) (numPercent_lt h)

end FirebaseSwift.Database
