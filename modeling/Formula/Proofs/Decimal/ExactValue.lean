/-
  Formula.Proofs.Decimal.ExactValue

  What a float is exactly, read off its bits.

    * `signBit x` — whether the first bit of `x` is set.
    * `exactValue? x` — the number that a finite float stands for, its mantissa times a power
      of two.

  `FloatValue.ofFloat_cases` says that the value from which floats are written agrees with
  both, and with what is an infinity or no number.
-/
import Mathlib
import Formula.Decimal.FloatValue
import Formula.Proofs.Decimal.Layout

namespace Formula

open Float.Model (Format UnpackedFloat)
open Float.Model.UnpackedFloat (Sign)

/-- Whether a float has a minus sign. -/
def signBit (x : Float) : Bool :=
  x.toBits.toBitVec.msb

/-- The exact value of a float that is finite. -/
def exactValue? (x : Float) : Option ℚ :=
  match x.toModel.unpack with
  | .notANumber => none
  | .infinity _ => none
  | .zero _ => some 0
  | .finite _ mantissa exponent _ => some (oriented (signBit x) (mantissa * 2 ^ exponent))

/-- The finite floats have an exact value. -/
theorem isSome_exactValue? (x : Float) : (exactValue? x).isSome = x.isFinite := by
  have hFinite : x.isFinite = x.toModel.unpack.isFinite := rfl
  rw [hFinite, exactValue?]
  cases x.toModel.unpack with
  | notANumber => rfl
  | infinity s => rfl
  | zero s => rfl
  | finite s mantissa exponent hpos => rfl

/-! ## Signs -/

theorem isNegative_unpackSign (b : BitVec 64) :
    FloatValue.isNegative (.ofBitVec (@UnpackedFloat.unpackSign .binary64 b)) = b.msb := by
  have hfirst : @UnpackedFloat.unpackSign .binary64 b = BitVec.ofBool b.msb := by
    show BitVec.cast _ (BitVec.extractLsb 63 63 b) = _
    ext i hi
    obtain rfl : i = 0 := by omega
    simp [BitVec.msb_eq_getLsbD_last]
  rw [hfirst]
  cases b.msb with
  | false => rfl
  | true => rfl

/-- The sign of an unpacked float, if it is a number. -/
def sign? : UnpackedFloat → Option Sign
  | .notANumber => none
  | .infinity s => some s
  | .zero s => some s
  | .finite s _ _ _ => some s

theorem isNegative_of_sign? {x : Float} {s : Sign} (h : sign? x.toModel.unpack = some s) :
    FloatValue.isNegative s = signBit x := by
  have hsign : ∀ b : BitVec 64, sign? (UnpackedFloat.unpack .binary64 b) = some s →
      s = .ofBitVec (@UnpackedFloat.unpackSign .binary64 b) := by
    intro b hb
    unfold UnpackedFloat.unpack at hb
    simp only at hb
    split at hb
    · split at hb
      · exact (Option.some.inj hb).symm
      · cases hb
    · split at hb
      · split at hb
        · exact (Option.some.inj hb).symm
        · exact (Option.some.inj hb).symm
      · exact (Option.some.inj hb).symm
  rw [hsign x.toBits.toBitVec h, isNegative_unpackSign, signBit]

/-! ## Values -/

/-- What a float is, and the value from which it is written. -/
theorem FloatValue.ofFloat_cases (x : Float) :
    (FloatValue.ofFloat x = .nan ∧ x.isNaN = true ∧ x.isInf = false ∧ exactValue? x = none) ∨
      (FloatValue.ofFloat x = .infinite (signBit x) ∧ x.isNaN = false ∧ x.isInf = true ∧
        exactValue? x = none) ∨
      ∃ n d, 0 < d ∧ FloatValue.ofFloat x = .finite (signBit x) n d ∧ x.isNaN = false ∧
        x.isInf = false ∧ exactValue? x = some (oriented (signBit x) (n / d)) := by
  have hNaN : x.isNaN = x.toModel.unpack.isNaN := rfl
  have hInf : x.isInf = x.toModel.unpack.isInf := rfl
  rw [hNaN, hInf, FloatValue.ofFloat, exactValue?]
  cases hunpack : x.toModel.unpack with
  | notANumber => exact .inl ⟨rfl, rfl, rfl, rfl⟩
  | infinity s =>
    have hs := isNegative_of_sign? (x := x) (by rw [hunpack]; rfl)
    exact .inr (.inl ⟨congrArg infinite hs, rfl, rfl, rfl⟩)
  | zero s =>
    have hs := isNegative_of_sign? (x := x) (by rw [hunpack]; rfl)
    refine .inr (.inr ⟨0, 1, Nat.one_pos, by simp only [hs], rfl, rfl, ?_⟩)
    cases signBit x <;> simp [oriented]
  | finite s mantissa exponent hpos =>
    have hs := isNegative_of_sign? (x := x) (by rw [hunpack]; rfl)
    have hscaled := div_scaled 2 mantissa 1 exponent
    rw [Nat.one_mul, Nat.cast_one, div_one] at hscaled
    refine .inr (.inr ⟨mantissa * Nat.pow 2 exponent.toNat, Nat.pow 2 (-exponent).toNat,
      Nat.pow_pos (by decide), by simp only [ofBinary, hs], rfl, rfl, ?_⟩)
    rw [hscaled]
    rfl

end Formula
