/-
  Formula.Proofs.Decimal.Rounding

  Rounding a positive fraction to decimal figures, against the exact fraction.

    * `Rounded.value precision r` — the number that rounded figures stand for.

  The decade of a fraction is the whole part of its decimal logarithm (`decade_eq_log`). In
  units of the last figure the fraction lies between the least and the greatest number of
  `precision` figures, so rounding it leaves that range only at the top, where the figures
  move to the next decade. Hence `roundFigures_bounds`, `abs_value_roundFigures_sub_le` (half
  a unit of the last figure of the decade of the exact fraction) and `log_value_roundFigures`
  (the exponent is the decade of the rounded number).
-/
import Mathlib.Algebra.Order.Field.Power
import Mathlib.Data.Int.Log
import Mathlib.Data.Rat.Floor
import Mathlib.Tactic.FieldSimp
import Mathlib.Tactic.Linarith
import Mathlib.Tactic.Positivity
import Formula.Decimal.Rounding

namespace Formula

/-- The number that rounded figures stand for, the first of them at the place of the exponent. -/
def Rounded.value (precision : Nat) (r : Rounded) : ℚ :=
  r.figures * 10 ^ (r.exponent - (precision - 1))

variable {n d precision : Nat} {q : ℚ} {k : ℤ}

/-! ## Powers and logarithms -/

theorem log_eq_of_le_of_lt (hlow : 10 ^ k ≤ q) (hhigh : q < 10 ^ (k + 1)) : Int.log 10 q = k := by
  have hq : 0 < q := lt_of_lt_of_le (by positivity) hlow
  have hle : k ≤ Int.log 10 q := (Int.zpow_le_iff_le_log (by decide) hq).1 (by exact_mod_cast hlow)
  have hlt : Int.log 10 q < k + 1 :=
    (Int.lt_zpow_iff_log_lt (by decide) hq).1 (by exact_mod_cast hhigh)
  omega

theorem zpow_log_le (hq : 0 < q) : 10 ^ Int.log 10 q ≤ q := by
  exact_mod_cast (Int.zpow_le_iff_le_log (b := 10) (by decide) hq).2 le_rfl

theorem lt_zpow_log_add_one (hq : 0 < q) : q < 10 ^ (Int.log 10 q + 1) := by
  exact_mod_cast (Int.lt_zpow_iff_log_lt (b := 10) (by decide) hq).2 (Int.lt_succ _)

theorem zpow_mul_zpow {a b c : ℤ} (h : a + b = c) : (10 : ℚ) ^ a * 10 ^ b = 10 ^ c := by
  rw [← zpow_add₀ (by norm_num), h]

/-! ## Decades -/

/-- The decade of a fraction of at least one is that of its whole part. -/
theorem decade_bounds_of_le (hd : 0 < d) (h : d ≤ n) :
    10 ^ decade n d ≤ (n : ℚ) / d ∧ (n : ℚ) / d < 10 ^ (decade n d + 1) := by
  have hwhole : n / d ≠ 0 := (Nat.div_pos h hd).ne'
  obtain ⟨k, hk⟩ : ∃ k, figureCount (n / d) = k + 1 :=
    ⟨figureCount (n / d / 10), figureCount_of_ne_zero hwhole⟩
  have hlow : 10 ^ k * d ≤ n :=
    (Nat.le_div_iff_mul_le hd).1 (pow_le_of_figureCount hk)
  have hhigh : n < 10 ^ (k + 1) * d := by
    have := lt_pow_figureCount (n / d)
    rw [hk] at this
    exact (Nat.div_lt_iff_lt_mul hd).1 this
  have hdecade : decade n d = k := by
    rw [decade, if_pos h, hk]
    omega
  have hd' : (0 : ℚ) < d := by exact_mod_cast hd
  rw [hdecade, le_div_iff₀ hd', div_lt_iff₀ hd']
  exact ⟨by exact_mod_cast hlow, by exact_mod_cast hhigh⟩

/-- The decade of a fraction below one is found from the whole part of its reciprocal, the
    denominator being one less so that a power of ten belongs to its own decade. -/
theorem decade_bounds_of_lt (hn : 0 < n) (h : n < d) :
    10 ^ decade n d ≤ (n : ℚ) / d ∧ (n : ℚ) / d < 10 ^ (decade n d + 1) := by
  have hwhole : (d - 1) / n ≠ 0 := (Nat.div_pos (by omega) hn).ne'
  obtain ⟨k, hk⟩ : ∃ k, figureCount ((d - 1) / n) = k + 1 :=
    ⟨figureCount ((d - 1) / n / 10), figureCount_of_ne_zero hwhole⟩
  have hlow : d ≤ n * 10 ^ (k + 1) := by
    have := lt_pow_figureCount ((d - 1) / n)
    rw [hk, Nat.div_lt_iff_lt_mul hn, Nat.mul_comm] at this
    exact Nat.le_of_pred_lt this
  have hhigh : n * 10 ^ k < d := by
    have := (Nat.le_div_iff_mul_le hn).1 (pow_le_of_figureCount hk)
    rw [Nat.mul_comm] at this
    exact lt_of_le_of_lt this (by omega)
  have hdecade : decade n d = -((k : ℤ) + 1) := by
    rw [decade, if_neg (by omega), hk]
    omega
  have hd' : (0 : ℚ) < d := by exact_mod_cast (by omega : 0 < d)
  have hnext : -((k : ℤ) + 1) + 1 = -k := by omega
  rw [hdecade, hnext, zpow_neg, zpow_neg, inv_le_comm₀ (by positivity) (by positivity), inv_div,
    div_le_iff₀' (by exact_mod_cast hn), lt_inv_comm₀ (by positivity) (by positivity), inv_div,
    lt_div_iff₀' (by exact_mod_cast hn)]
  exact ⟨by exact_mod_cast hlow, by exact_mod_cast hhigh⟩

theorem decade_eq_log (hn : 0 < n) (hd : 0 < d) : decade n d = Int.log 10 ((n : ℚ) / d) := by
  rcases Nat.lt_or_ge n d with h | h
  · obtain ⟨hlow, hhigh⟩ := decade_bounds_of_lt hn h
    exact (log_eq_of_le_of_lt hlow hhigh).symm
  · obtain ⟨hlow, hhigh⟩ := decade_bounds_of_le hd h
    exact (log_eq_of_le_of_lt hlow hhigh).symm

/-! ## Rounding to a whole number of units -/

theorem abs_roundDiv_sub_le (n : Nat) (hd : 0 < d) :
    |(roundDiv n d : ℚ) - n / d| ≤ 1 / 2 := by
  have hd' : (0 : ℚ) < d := by exact_mod_cast hd
  have hup : (2 : ℚ) * (roundDiv n d * d) ≤ 2 * n + d := by
    exact_mod_cast two_mul_roundDiv_le n hd
  have hdown : (2 : ℚ) * n ≤ 2 * (roundDiv n d * d) + d := by
    exact_mod_cast le_two_mul_roundDiv n hd
  have hq : (n : ℚ) = n / d * d := by field_simp
  rw [abs_le]
  constructor
  · nlinarith
  · nlinarith

/-- A fraction in units of a power, as a fraction of whole numbers. -/
theorem div_scaled (base n d : Nat) (shift : ℤ) :
    ((n * Nat.pow base shift.toNat : Nat) : ℚ) / (d * Nat.pow base (-shift).toNat : Nat) =
      n / d * base ^ shift := by
  obtain ⟨k, rfl | rfl⟩ := shift.eq_nat_or_neg
  · simp [zpow_natCast]
    ring
  · simp [zpow_neg, zpow_natCast]
    ring

/-- The rounded number of units is within half a unit. -/
theorem abs_scaledFigures_sub_le (n precision : Nat) (hd : 0 < d) :
    |(scaledFigures precision n d : ℚ) - n / d * 10 ^ ((precision : ℤ) - 1 - decade n d)| ≤
      1 / 2 := by
  have hscaled := div_scaled 10 n d ((precision : ℤ) - 1 - decade n d)
  push_cast at hscaled
  rw [← hscaled]
  exact_mod_cast abs_roundDiv_sub_le _ (Nat.mul_pos hd (Nat.pow_pos (by decide)))

/-- Rounding reaches the next power of ten at most. -/
theorem scaledFigures_bounds (hn : 0 < n) (hd : 0 < d) (hprecision : 0 < precision) :
    10 ^ (precision - 1) ≤ scaledFigures precision n d ∧
      scaledFigures precision n d ≤ 10 ^ precision := by
  have hn' : (0 : ℚ) < n := by exact_mod_cast hn
  have hd' : (0 : ℚ) < d := by exact_mod_cast hd
  have hq : 0 < (n : ℚ) / d := by positivity
  have hunits := abs_le.1 (abs_scaledFigures_sub_le n precision hd)
  rw [decade_eq_log hn hd] at hunits
  -- In units of the last figure, the fraction has `precision` figures before the point.
  have hlow : (10 : ℚ) ^ (precision - 1) ≤
      n / d * 10 ^ ((precision : ℤ) - 1 - Int.log 10 ((n : ℚ) / d)) := by
    have hpow : (10 : ℚ) ^ (precision - 1) = 10 ^ Int.log 10 ((n : ℚ) / d) *
        10 ^ ((precision : ℤ) - 1 - Int.log 10 ((n : ℚ) / d)) := by
      rw [← zpow_natCast]
      exact (zpow_mul_zpow (by omega)).symm
    rw [hpow]
    exact mul_le_mul_of_nonneg_right (zpow_log_le hq) (by positivity)
  have hhigh : n / d * 10 ^ ((precision : ℤ) - 1 - Int.log 10 ((n : ℚ) / d)) <
      (10 : ℚ) ^ precision := by
    have hpow : (10 : ℚ) ^ precision = 10 ^ (Int.log 10 ((n : ℚ) / d) + 1) *
        10 ^ ((precision : ℤ) - 1 - Int.log 10 ((n : ℚ) / d)) := by
      rw [← zpow_natCast]
      exact (zpow_mul_zpow (by omega)).symm
    rw [hpow]
    exact mul_lt_mul_of_pos_right (lt_zpow_log_add_one hq) (by positivity)
  constructor
  · have hlt : (10 : ℚ) ^ (precision - 1) < scaledFigures precision n d + 1 := by linarith
    exact Nat.lt_succ_iff.1 (by exact_mod_cast hlt)
  · have hlt : (scaledFigures precision n d : ℚ) < 10 ^ precision + 1 := by linarith
    exact Nat.lt_succ_iff.1 (by exact_mod_cast hlt)

/-! ## Rounded figures -/

/-- Moving to the next decade does not change the number. -/
theorem value_roundFigures (hprecision : 0 < precision) :
    (roundFigures precision n d).value precision =
      scaledFigures precision n d * 10 ^ (decade n d - (precision - 1)) := by
  unfold roundFigures
  split
  · rename_i hcarry
    rw [hcarry, Rounded.value]
    have hpow : ((Nat.pow 10 precision : Nat) : ℚ) = (Nat.pow 10 (precision - 1) : Nat) * 10 := by
      obtain ⟨p, rfl⟩ := Nat.exists_eq_add_of_lt hprecision
      simp [pow_succ]
    rw [hpow, mul_assoc, ← zpow_one_add₀ (by norm_num)]
    congr 2
    ring
  · rfl

theorem roundFigures_bounds (hn : 0 < n) (hd : 0 < d) (hprecision : 0 < precision) :
    10 ^ (precision - 1) ≤ (roundFigures precision n d).figures ∧
      (roundFigures precision n d).figures < 10 ^ precision := by
  obtain ⟨hlow, hhigh⟩ := scaledFigures_bounds hn hd hprecision
  unfold roundFigures
  split
  · exact ⟨le_rfl, Nat.pow_lt_pow_right (by decide) (by omega)⟩
  · rename_i hcarry
    exact ⟨hlow, lt_of_le_of_ne hhigh hcarry⟩

/-- The rounded number is within half a unit of the last figure of the exact one's decade. -/
theorem abs_value_roundFigures_sub_le (hn : 0 < n) (hd : 0 < d) (hprecision : 0 < precision) :
    |(roundFigures precision n d).value precision - n / d| ≤
      10 ^ (Int.log 10 ((n : ℚ) / d) - (precision - 1)) / 2 := by
  have hunits := abs_scaledFigures_sub_le n precision hd
  rw [← decade_eq_log hn hd, value_roundFigures hprecision]
  have hunit : (0 : ℚ) < 10 ^ (decade n d - ((precision : ℤ) - 1)) := by positivity
  have hone : (10 : ℚ) ^ ((precision : ℤ) - 1 - decade n d) *
      10 ^ (decade n d - ((precision : ℤ) - 1)) = 1 :=
    (zpow_mul_zpow (by omega)).trans (zpow_zero 10)
  have hsplit : (scaledFigures precision n d : ℚ) * 10 ^ (decade n d - ((precision : ℤ) - 1)) -
      n / d = (scaledFigures precision n d - n / d * 10 ^ ((precision : ℤ) - 1 - decade n d)) *
        10 ^ (decade n d - ((precision : ℤ) - 1)) := by
    rw [sub_mul, mul_assoc, hone, mul_one]
  rw [hsplit, abs_mul, abs_of_pos hunit]
  calc _ ≤ 1 / 2 * (10 : ℚ) ^ (decade n d - ((precision : ℤ) - 1)) :=
        mul_le_mul_of_nonneg_right hunits hunit.le
    _ = _ := by ring

/-- The exponent of rounded figures is the decade of the rounded number. -/
theorem log_value_roundFigures (hn : 0 < n) (hd : 0 < d) (hprecision : 0 < precision) :
    Int.log 10 ((roundFigures precision n d).value precision) =
      (roundFigures precision n d).exponent := by
  obtain ⟨hlow, hhigh⟩ := roundFigures_bounds hn hd hprecision
  generalize roundFigures precision n d = r at hlow hhigh ⊢
  have hunit : (0 : ℚ) < 10 ^ (r.exponent - ((precision : ℤ) - 1)) := by positivity
  refine log_eq_of_le_of_lt ?_ ?_
  · calc (10 : ℚ) ^ r.exponent
          = 10 ^ (precision - 1) * 10 ^ (r.exponent - ((precision : ℤ) - 1)) := by
            rw [← zpow_natCast]
            exact (zpow_mul_zpow (by omega)).symm
      _ ≤ r.value precision :=
            mul_le_mul_of_nonneg_right (by exact_mod_cast hlow) hunit.le
  · calc r.value precision
          < 10 ^ precision * 10 ^ (r.exponent - ((precision : ℤ) - 1)) :=
            mul_lt_mul_of_pos_right (by exact_mod_cast hhigh) hunit
      _ = (10 : ℚ) ^ (r.exponent + 1) := by
            rw [← zpow_natCast]
            exact zpow_mul_zpow (by omega)

end Formula
