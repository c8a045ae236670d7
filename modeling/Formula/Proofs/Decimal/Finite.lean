/-
  Formula.Proofs.Decimal.Finite

  A decimal below the greatest float is read as a finite float.

    * `IsFiniteFrom k s f` — `f` is zero or finite, has the sign `s`, and its mantissa counts
      units of `2 ^ k` or smaller ones.

  Rounding moves a mantissa to larger units, rounds it, and moves it once more if it has a
  figure too many. Neither move passes `2 ^ k` if the exact value is below `2 ^ (k + 53)` by
  more than one such unit (`isFiniteFrom_roundWithAccuracy`), and a float is written to its
  bits as it is if `k` is at most 971 (`IsFiniteFrom.unpack_pack`). Products and quotients are
  rounded once, and a decimal is one of these: `Numeral.toFloat_decimal`.
-/
import Formula.Proofs.Decimal.ExactValue

namespace Formula

open Float.Model (Format UnpackedFloat totalExponent)
open Float.Model.UnpackedFloat

/-- Zero or a finite float, with the sign `s`, in units of `2 ^ k` or smaller ones. -/
inductive IsFiniteFrom (k : ℤ) (s : Sign) : UnpackedFloat → Prop
  | zero : IsFiniteFrom k s (.zero s)
  | finite {m : Nat} {e : ℤ} {hm : 0 < m} (he : e ≤ k) : IsFiniteFrom k s (.finite s m e hm)

variable {k e e₁ e₂ : ℤ} {m m₁ m₂ n : Nat} {s : UnpackedFloat.Sign} {f : UnpackedFloat}
  {x : Float}

/-! ## Shifts -/

theorem mantissa_shiftRight (em : ExtendedMantissa) (n : Nat) :
    (em >>> n).mantissa = em.mantissa / 2 ^ n := by
  induction n with
  | zero => exact (Nat.div_one _).symm
  | succ n ih =>
    show (em >>> n).mantissa / 2 = _
    rw [ih, Nat.div_div_eq_div_mul, pow_succ]

theorem mantissa_ofMantissaAndAccuracy (m : Nat) (accuracy : Accuracy) :
    (ExtendedMantissa.ofMantissaAndAccuracy m accuracy).mantissa = m := by
  cases accuracy with
  | exact => rfl
  | inexact o => cases o <;> rfl

theorem roundedMantissa_le (em : ExtendedMantissa) : em.roundedMantissa ≤ em.mantissa + 1 := by
  rw [ExtendedMantissa.roundedMantissa]
  cases em.accuracy with
  | exact => exact Nat.le_succ _
  | inexact o =>
    cases o with
    | lt => exact Nat.le_succ _
    | eq => exact Nat.add_le_add_left (Nat.le_of_lt_succ (Nat.mod_lt _ Nat.two_pos)) _
    | gt => exact le_rfl

/-- A shift to the left makes units smaller. -/
theorem shiftLeft_mul_zpow (m n : Nat) (e : ℤ) :
    ((m <<< n : Nat) : ℚ) * 2 ^ e = m * 2 ^ (e + n) := by
  rw [Nat.shiftLeft_eq, Nat.cast_mul, Nat.cast_pow, Nat.cast_ofNat, mul_assoc,
    zpow_add₀ (by norm_num), zpow_natCast, mul_comm ((2 : ℚ) ^ e)]

theorem targetExponent_binary64 (t : ℤ) :
    Format.binary64.targetExponent t = max (t - 53) (-1074) := rfl

/-- A shift does not make a number greater. -/
theorem shiftToTargetExponent_value_le (m : Nat) (e : ℤ) (accuracy : Accuracy) :
    ((shiftToTargetExponent .binary64 m e accuracy).1.mantissa : ℚ) *
      2 ^ (shiftToTargetExponent .binary64 m e accuracy).2 ≤ m * 2 ^ e := by
  rw [shiftToTargetExponent, shiftToExponent]
  simp only [mantissa_shiftRight, mantissa_ofMantissaAndAccuracy]
  generalize (Format.binary64.targetExponent (totalExponent m e) - e).toNat = n
  have hdiv : (m / 2 ^ n : Nat) * (2 : ℚ) ^ n ≤ m := by
    exact_mod_cast Nat.div_mul_le_self m (2 ^ n)
  calc ((m / 2 ^ n : Nat) : ℚ) * 2 ^ (e + n)
      = (m / 2 ^ n : Nat) * (2 : ℚ) ^ n * 2 ^ e := by
        rw [zpow_add₀ (by norm_num), zpow_natCast]
        ring
    _ ≤ m * 2 ^ e := mul_le_mul_of_nonneg_right hdiv (by positivity)

/-- The units of a number below `2 ^ (k + 53)` are not moved beyond `2 ^ k`. -/
theorem shiftToTargetExponent_exponent_le (accuracy : Accuracy) (hk : -1074 ≤ k) (he : e ≤ k)
    (hvalue : (m : ℚ) * 2 ^ e < 2 ^ (k + 53)) :
    (shiftToTargetExponent .binary64 m e accuracy).2 ≤ k := by
  have hlog : (m.log2 : ℤ) + e < k + 53 := by
    rcases Nat.eq_zero_or_pos m with rfl | hm
    · show (0 : ℤ) + e < k + 53
      omega
    · have hpow : (2 : ℚ) ^ ((m.log2 : ℤ) + e) < 2 ^ (k + 53) := by
        have hself : (2 : ℚ) ^ m.log2 ≤ m := by exact_mod_cast Nat.log2_self_le hm.ne'
        calc (2 : ℚ) ^ ((m.log2 : ℤ) + e) = 2 ^ m.log2 * 2 ^ e := by
              rw [zpow_add₀ (by norm_num), zpow_natCast]
          _ ≤ m * 2 ^ e := mul_le_mul_of_nonneg_right hself (by positivity)
          _ < 2 ^ (k + 53) := hvalue
      exact (zpow_lt_zpow_iff_right₀ (by norm_num)).1 hpow
  rw [shiftToTargetExponent, shiftToExponent, targetExponent_binary64, totalExponent]
  simp only
  omega

/-! ## Rounding -/

theorem isFiniteFrom_roundWithAccuracy (accuracy : Accuracy) (hk : -1074 ≤ k) (he : e ≤ k)
    (hvalue : (m : ℚ) * 2 ^ e < 2 ^ (k + 53) - 2 ^ k) :
    IsFiniteFrom k s (roundWithAccuracy .binary64 s m e accuracy) := by
  have hunit : (0 : ℚ) < 2 ^ k := by positivity
  have hfirst := shiftToTargetExponent_exponent_le accuracy hk he (by linarith)
  have hshifted := shiftToTargetExponent_value_le m e accuracy
  rw [roundWithAccuracy]
  generalize shiftToTargetExponent .binary64 m e accuracy = r at hfirst hshifted ⊢
  obtain ⟨em, e₁⟩ := r
  simp only at hfirst hshifted ⊢
  have hrounded : (em.roundedMantissa : ℚ) * 2 ^ e₁ < 2 ^ (k + 53) := by
    have hunit₁ : (2 : ℚ) ^ e₁ ≤ 2 ^ k := zpow_le_zpow_right₀ (by norm_num) hfirst
    have hle : (em.roundedMantissa : ℚ) ≤ em.mantissa + 1 := by
      exact_mod_cast roundedMantissa_le em
    calc (em.roundedMantissa : ℚ) * 2 ^ e₁
        ≤ (em.mantissa + 1) * 2 ^ e₁ := mul_le_mul_of_nonneg_right hle (by positivity)
      _ = em.mantissa * 2 ^ e₁ + 2 ^ e₁ := by ring
      _ < 2 ^ (k + 53) := by linarith
  have hsecond := shiftToTargetExponent_exponent_le .exact hk hfirst hrounded
  split
  · exact .zero
  · exact .finite hsecond

theorem isFiniteFrom_round (hk : -1074 ≤ k) (he : e ≤ k)
    (hvalue : (m : ℚ) * 2 ^ e < 2 ^ (k + 53) - 2 ^ k) :
    IsFiniteFrom k s (UnpackedFloat.round .binary64 s m e) := by
  rw [UnpackedFloat.round]
  generalize Format.binary64.targetExponent _ = t
  simp only [decreaseExponent]
  generalize (e - t).toNat = n
  refine isFiniteFrom_roundWithAccuracy .exact hk (by omega) ?_
  rwa [shiftLeft_mul_zpow, sub_add_cancel]

/-! ## Bits -/

/-- The mantissas and the exponents that bits have room for. -/
theorem bounds_of_unpack {b : BitVec 64} {hm : 0 < m}
    (h : unpack .binary64 b = .finite s m e hm) : m < 2 ^ 53 ∧ e ≤ 971 := by
  have hlt := (@unpackExponent .binary64 b).isLt
  unfold unpack at h
  simp only at h
  split at h
  · split at h
    · cases h
    · cases h
  · rename_i hmax
    have hne : (@unpackExponent .binary64 b).toNat ≠ 2047 :=
      fun hnat => hmax (BitVec.eq_of_toNat_eq hnat)
    have hbias : Format.binary64.exponentBias = 1023 := rfl
    split at h
    · rename_i hzero
      split at h
      · cases h
      · cases h
        exact ⟨(BitVec.isLt _).trans (by decide), by rw [hzero]; decide⟩
    · cases h
      refine ⟨BitVec.isLt _, ?_⟩
      rw [hbias]
      simp only at hlt ⊢
      omega

/-- Bits whose exponent is not the greatest one are those of a finite float. -/
theorem isFiniteFrom_unpack {b : BitVec 64} (hk : -1074 ≤ k)
    (hmax : @unpackExponent .binary64 b ≠ -1#11)
    (hle : ((@unpackExponent .binary64 b).toNat : ℤ) - 1075 ≤ k) :
    IsFiniteFrom k (.ofBitVec (@unpackSign .binary64 b)) (unpack .binary64 b) := by
  unfold unpack
  simp only
  rw [if_neg hmax]
  split
  · rename_i hzero
    split
    · exact .zero
    · refine .finite ?_
      rw [hzero]
      exact hk
  · exact .finite hle

theorem IsFiniteFrom.unpack_pack (h : IsFiniteFrom k s f) (hk : -1074 ≤ k) (hmax : k ≤ 971) :
    IsFiniteFrom k s (unpack .binary64 (pack .binary64 f)) := by
  have hcomponents : ∀ (exponent : BitVec 11) (mantissa : BitVec 52),
      exponent ≠ -1#11 → (exponent.toNat : ℤ) - 1075 ≤ k →
        IsFiniteFrom k s (unpack .binary64 (packComponents .binary64 s exponent mantissa)) := by
    intro exponent mantissa hexponent hle
    have := isFiniteFrom_unpack (b := packComponents .binary64 s exponent mantissa) hk
      (by rwa [unpackExponent_packComponents]) (by rwa [unpackExponent_packComponents])
    rwa [unpackSign_packComponents, Sign.ofBitVec_toBitVec] at this
  have hsubnormal : ∀ mantissa, IsFiniteFrom k s
      (unpack .binary64 (packComponents .binary64 s 0#11 mantissa)) :=
    fun mantissa => hcomponents 0#11 mantissa (by decide) (by simpa using by omega)
  cases h with
  | zero => exact hsubnormal 0
  | @finite m e hm he =>
    rw [UnpackedFloat.pack]
    simp only
    have hbias : (e + Format.binary64.exponentBias + Format.binary64.mantissaBitsWithoutImplicit) =
        e + 1075 := by
      show e + (1023 : ℕ) + (52 : ℕ) = _
      omega
    rw [hbias, if_neg (by show ¬ 2 ^ 11 ≤ _; omega)]
    split
    · have hnat : (BitVec.ofNat 11 (e + 1075).toNat).toNat = (e + 1075).toNat := by
        rw [BitVec.toNat_ofNat, Nat.mod_eq_of_lt (by omega)]
      refine hcomponents _ _ ?_ ?_
      · intro hall
        rw [hall] at hnat
        have : (-1#11).toNat = 2047 := rfl
        omega
      · rw [hnat]
        omega
    · exact hsubnormal _

/-! ## Floats -/

theorem IsFiniteFrom.neg (h : IsFiniteFrom k s f) : IsFiniteFrom k (-s) f.neg := by
  cases h with
  | zero => exact .zero
  | finite he => exact .finite he

/-- What rounding gives is also what the bits give. -/
theorem IsFiniteFrom.ofModel (h : IsFiniteFrom 971 s f) :
    IsFiniteFrom 971 s (Float.ofModel (.pack f)).toModel.unpack :=
  h.unpack_pack (by decide) le_rfl

theorem IsFiniteFrom.kind (h : IsFiniteFrom k s f) :
    f.isNaN = false ∧ f.isInf = false ∧ sign? f = some s := by
  cases h with
  | zero => exact ⟨rfl, rfl, rfl⟩
  | finite he => exact ⟨rfl, rfl, rfl⟩

theorem IsFiniteFrom.float (h : IsFiniteFrom k s x.toModel.unpack) :
    x.isNaN = false ∧ x.isInf = false ∧ signBit x = FloatValue.isNegative s :=
  ⟨h.kind.1, h.kind.2.1, (isNegative_of_sign? h.kind.2.2).symm⟩

/-! ## Products and quotients -/

theorem isFiniteFrom_mul {hm₁ : 0 < m₁} {hm₂ : 0 < m₂} (hk : -1074 ≤ k) (he : e₁ + e₂ ≤ k)
    (hvalue : (m₁ : ℚ) * m₂ * 2 ^ (e₁ + e₂) < 2 ^ (k + 53) - 2 ^ k) :
    IsFiniteFrom k .positive
      (mul .binary64 (.finite .positive m₁ e₁ hm₁) (.finite .positive m₂ e₂ hm₂)) :=
  isFiniteFrom_roundWithAccuracy .exact hk he (by push_cast; exact hvalue)

/-- The units of a quotient are those of the operands or smaller ones, and it is cut off. -/
theorem divCore_bounds (m₁ m₂ : Nat) (e₁ e₂ : ℤ) :
    (divCore .binary64 m₁ e₁ m₂ e₂).2.1 ≤ e₁ - e₂ ∧
      ((divCore .binary64 m₁ e₁ m₂ e₂).1 : ℚ) * 2 ^ (divCore .binary64 m₁ e₁ m₂ e₂).2.1 ≤
        m₁ / m₂ * 2 ^ (e₁ - e₂) := by
  rw [divCore]
  simp only
  generalize Format.binary64.targetExponent _ = t
  generalize hn : (e₁ - e₂ - min (e₁ - e₂) t).toNat = n
  refine ⟨min_le_left _ _, ?_⟩
  have hdiv : ((m₁ <<< n / m₂ : Nat) : ℚ) ≤ (m₁ <<< n : Nat) / m₂ := Nat.cast_div_le
  calc ((m₁ <<< n / m₂ : Nat) : ℚ) * 2 ^ min (e₁ - e₂) t
      ≤ (m₁ <<< n : Nat) / m₂ * 2 ^ min (e₁ - e₂) t :=
        mul_le_mul_of_nonneg_right hdiv (by positivity)
    _ = m₁ / m₂ * 2 ^ (e₁ - e₂) := by
        rw [div_mul_eq_mul_div, shiftLeft_mul_zpow, mul_div_right_comm]
        congr 2
        omega

theorem isFiniteFrom_div {hm₁ : 0 < m₁} {hm₂ : 0 < m₂} (hk : -1074 ≤ k) (he : e₁ - e₂ ≤ k)
    (hvalue : (m₁ : ℚ) / m₂ * 2 ^ (e₁ - e₂) < 2 ^ (k + 53) - 2 ^ k) :
    IsFiniteFrom k .positive
      (div .binary64 (.finite .positive m₁ e₁ hm₁) (.finite .positive m₂ e₂ hm₂)) := by
  obtain ⟨hexponent, hcut⟩ := divCore_bounds m₁ m₂ e₁ e₂
  exact isFiniteFrom_roundWithAccuracy _ hk (hexponent.trans he) (hcut.trans_lt hvalue)

/-! ## Decimals -/

/-- Decimals below this are read as finite floats. -/
def finiteLimit : ℚ := 2 ^ (1024 : ℤ) - 2 ^ (971 : ℤ)

theorem finiteLimit_lt : finiteLimit < 10 ^ (309 : ℤ) := by
  have hpow : 2 ^ 1024 < 10 ^ 309 := by decide +kernel
  calc finiteLimit < 2 ^ (1024 : ℤ) := sub_lt_self _ (by positivity)
    _ < 10 ^ (309 : ℤ) := by exact_mod_cast hpow

/-- No float is greater. -/
theorem abs_le_finiteLimit {q : ℚ} (h : exactValue? x = some q) : |q| ≤ finiteLimit := by
  unfold exactValue? at h
  split at h
  · cases h
  · cases h
  · obtain rfl := Option.some.inj h
    rw [abs_zero, finiteLimit, sub_nonneg]
    exact zpow_le_zpow_right₀ (by norm_num) (by decide)
  · rename_i m e hm hunpack
    obtain rfl := Option.some.inj h
    obtain ⟨hlt, he⟩ := bounds_of_unpack hunpack
    have hm' : (m : ℚ) ≤ 2 ^ 53 - 1 := by
      rw [le_sub_iff_add_le]
      exact_mod_cast hlt
    rw [abs_oriented, abs_of_nonneg (by positivity)]
    calc (m : ℚ) * 2 ^ e ≤ (2 ^ 53 - 1) * 2 ^ (971 : ℤ) := by
          gcongr
          norm_num
      _ = 2 ^ ((53 : ℤ) + 971) - 2 ^ (971 : ℤ) := by
          rw [zpow_add₀ (by norm_num), sub_mul, one_mul, zpow_ofNat 2 53]

/-- Decimals in exact arithmetic, rounded once. -/
theorem isFiniteFrom_ofScientific (hvalue : (n : ℚ) * 10 ^ e < finiteLimit) :
    IsFiniteFrom 971 .positive (ofScientific .binary64 n e) := by
  rw [ofScientific]
  split
  · exact .zero
  rename_i hn
  have he : e < 309 := by
    have hone : (1 : ℚ) ≤ n := by exact_mod_cast Nat.one_le_iff_ne_zero.2 hn
    have hpow : (10 : ℚ) ^ e < 10 ^ (309 : ℤ) :=
      (le_mul_of_one_le_left (by positivity) hone).trans_lt (hvalue.trans finiteLimit_lt)
    exact (zpow_lt_zpow_iff_right₀ (by norm_num)).1 hpow
  split
  · rename_i hlarge
    have : (2 : ℤ) ^ Format.binary64.exponentBits = 2048 := rfl
    omega
  split
  · exact .zero
  split
  · rename_i hnonneg
    obtain ⟨j, rfl⟩ := Int.eq_ofNat_of_zero_le hnonneg
    refine isFiniteFrom_mul (by decide) (by decide) ?_
    calc ((n <<< 53 : Nat) : ℚ) * (10 ^ j : Nat) * 2 ^ (-53 + 0 : ℤ)
        = n * 10 ^ (j : ℤ) := by
          rw [mul_right_comm, shiftLeft_mul_zpow]
          simp
      _ < finiteLimit := hvalue
  · rename_i hneg
    obtain ⟨j, rfl⟩ := Int.exists_eq_neg_ofNat (le_of_not_ge hneg)
    refine isFiniteFrom_div (by decide) (by decide) ?_
    calc (n : ℚ) / (10 ^ (- -(j : ℤ)).toNat : Nat) * 2 ^ (0 - 0 : ℤ)
        = n * 10 ^ (-(j : ℤ)) := by
          rw [neg_neg, Int.toNat_natCast, zpow_neg, zpow_natCast]
          push_cast
          simp [div_eq_mul_inv]
      _ < finiteLimit := hvalue

/-- Whole numbers that a mantissa holds. -/
theorem isFiniteFrom_ofNat (hn : n < 2 ^ 53) :
    IsFiniteFrom 1 .positive (UnpackedFloat.ofNat .binary64 n) := by
  rw [UnpackedFloat.ofNat, ofInt, UnpackedFloat.normalize]
  split
  · rename_i hneg
    exact absurd (Int.compare_eq_lt.1 hneg) (by omega)
  · exact .zero
  · refine isFiniteFrom_round (by decide) (by decide) ?_
    have hn' : (n : ℚ) < 2 ^ 53 := by exact_mod_cast hn
    norm_num at hn' ⊢
    linarith

/-- The powers of ten that are floats. -/
theorem exists_unpack_of_mem_powersOfTen (hx : x ∈ Float.exactlyRepresentablePowersOfTen) :
    ∃ m e, ∃ hm : 0 < m,
      x.toModel.unpack = .finite .positive m e hm ∧ m < 2 ^ 53 ∧ -52 ≤ e ∧ e ≤ 22 := by
  have hall : (Float.exactlyRepresentablePowersOfTen.toList.all fun x =>
      match x.toModel.unpack with
      | .finite .positive _ e _ => -52 ≤ e && e ≤ 22
      | _ => false) = true := by decide
  have hunpack := List.all_eq_true.1 hall x (Array.mem_toList_iff.2 hx)
  split at hunpack
  · rename_i m e hm heq
    obtain ⟨hlow, hhigh⟩ := Bool.and_eq_true_iff.1 hunpack
    exact ⟨m, e, hm, heq, (bounds_of_unpack heq).1, of_decide_eq_true hlow,
      of_decide_eq_true hhigh⟩
  · cases hunpack

/-- Mantissas and exponents that are far from the greatest ones. -/
theorem lt_finiteLimit (hm₁ : m₁ < 2 ^ 53) {q : ℚ} (hq₀ : 0 ≤ q) (hq : q < 2 ^ 53) (he : e ≤ 53) :
    m₁ * q * 2 ^ e < finiteLimit := by
  have hm₁' : (m₁ : ℚ) < 2 ^ 53 := by exact_mod_cast hm₁
  have hpow : 2 ^ 159 + 2 ^ 971 < 2 ^ 1024 := by decide +kernel
  have hpow' : (2 : ℚ) ^ (159 : ℤ) + 2 ^ (971 : ℤ) < 2 ^ (1024 : ℤ) := by exact_mod_cast hpow
  calc m₁ * q * 2 ^ e ≤ 2 ^ 53 * 2 ^ 53 * (2 : ℚ) ^ (53 : ℤ) := by
        gcongr
        norm_num
    _ = 2 ^ (159 : ℤ) := by norm_num
    _ < finiteLimit := lt_sub_iff_add_lt.2 hpow'

/-- Whole numbers that a mantissa holds, as floats. -/
theorem unpack_toFloat_cases (hn : n < 2 ^ 53) :
    n.toUInt64.toFloat.toModel.unpack = .zero .positive ∨
      ∃ m e, ∃ hm : 0 < m,
        n.toUInt64.toFloat.toModel.unpack = .finite .positive m e hm ∧ m < 2 ^ 53 ∧ e ≤ 1 := by
  have hnat : n.toUInt64.toNat = n := Nat.mod_eq_of_lt (hn.trans (by decide))
  have hfinite : IsFiniteFrom 1 .positive n.toUInt64.toFloat.toModel.unpack := by
    refine IsFiniteFrom.unpack_pack ?_ (by decide) (by decide)
    rw [ofUInt64, hnat]
    exact isFiniteFrom_ofNat hn
  generalize hunpack : n.toUInt64.toFloat.toModel.unpack = f at hfinite
  cases hfinite with
  | zero => exact .inl rfl
  | finite he => exact .inr ⟨_, _, _, rfl, (bounds_of_unpack hunpack).1, he⟩

theorem isFiniteFrom_mul_powerOfTen (hn : n < 2 ^ 53)
    (hx : x ∈ Float.exactlyRepresentablePowersOfTen) :
    IsFiniteFrom 971 .positive (n.toUInt64.toFloat * x).toModel.unpack := by
  obtain ⟨m₂, e₂, hm₂, hpower, hlt₂, -, he₂⟩ := exists_unpack_of_mem_powersOfTen hx
  refine IsFiniteFrom.ofModel ?_
  rw [hpower]
  rcases unpack_toFloat_cases hn with hzero | ⟨m₁, e₁, hm₁, hwhole, hlt₁, he₁⟩
  · rw [hzero]
    exact .zero
  · rw [hwhole]
    exact isFiniteFrom_mul (by decide) (by omega)
      (lt_finiteLimit hlt₁ (Nat.cast_nonneg _) (by exact_mod_cast hlt₂) (by omega))

theorem isFiniteFrom_div_powerOfTen (hn : n < 2 ^ 53)
    (hx : x ∈ Float.exactlyRepresentablePowersOfTen) :
    IsFiniteFrom 971 .positive (n.toUInt64.toFloat / x).toModel.unpack := by
  obtain ⟨m₂, e₂, hm₂, hpower, -, he₂, -⟩ := exists_unpack_of_mem_powersOfTen hx
  refine IsFiniteFrom.ofModel ?_
  rw [hpower]
  rcases unpack_toFloat_cases hn with hzero | ⟨m₁, e₁, hm₁, hwhole, hlt₁, he₁⟩
  · rw [hzero]
    exact .zero
  · rw [hwhole]
    have hone : (m₂ : ℚ)⁻¹ ≤ 1 := inv_le_one_of_one_le₀ (by exact_mod_cast hm₂)
    refine isFiniteFrom_div (by decide) (by omega) ?_
    rw [div_eq_mul_inv]
    exact lt_finiteLimit hlt₁ (by positivity) (hone.trans_lt (by norm_num)) (by omega)

/-- Decimals are read by one of two ways: short ones as a float times or over another one, and
    others in exact arithmetic. -/
theorem isFiniteFrom_magnitude (h : (n : ℚ) * 10 ^ e < finiteLimit) (negative : Bool) :
    IsFiniteFrom 971 .positive (Numeral.decimal negative n e).magnitude.toModel.unpack := by
  show IsFiniteFrom 971 .positive (Float.ofScientific n (decide (e < 0)) e.natAbs).toModel.unpack
  rw [Float.ofScientific]
  split
  · rename_i hshort
    split
    · exact isFiniteFrom_div_powerOfTen hshort.1 (Array.getElem_mem _)
    · exact isFiniteFrom_mul_powerOfTen hshort.1 (Array.getElem_mem _)
  · have hexponent :
        (if decide (e < 0) = true then Int.negOfNat e.natAbs else Int.ofNat e.natAbs) = e := by
      split
      · rename_i hneg
        have := of_decide_eq_true hneg
        rw [Int.negOfNat_eq, Int.ofNat_eq_natCast]
        omega
      · rename_i hneg
        have := of_decide_eq_false (Bool.eq_false_iff.2 hneg)
        exact Int.natAbs_of_nonneg (by omega)
    rw [hexponent]
    exact (isFiniteFrom_ofScientific h).ofModel

/-! ## Numerals -/

section Numerals

variable (negative : Bool)

/-- A decimal below the limit is read as a finite float of the sign that is written. -/
theorem Numeral.toFloat_decimal (h : (n : ℚ) * 10 ^ e < finiteLimit) :
    (decimal negative n e).toFloat.isNaN = false ∧ (decimal negative n e).toFloat.isInf = false ∧
      signBit (decimal negative n e).toFloat = negative := by
  have hmagnitude := isFiniteFrom_magnitude h negative
  cases negative with
  | false => exact hmagnitude.float
  | true => exact hmagnitude.neg.ofModel.float

theorem Numeral.toFloat_infinity :
    (infinity negative).toFloat.isNaN = false ∧ (infinity negative).toFloat.isInf = true ∧
      signBit (infinity negative).toFloat = negative := by
  cases negative with
  | false => exact ⟨rfl, rfl, rfl⟩
  | true => exact ⟨rfl, rfl, rfl⟩

theorem Numeral.toFloat_nan :
    (nan negative).toFloat.isNaN = true ∧ (nan negative).toFloat.isInf = false := by
  cases negative with
  | false => exact ⟨rfl, rfl⟩
  | true => exact ⟨rfl, rfl⟩

end Numerals

end Formula
