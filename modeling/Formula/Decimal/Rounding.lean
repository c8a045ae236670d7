/-
  Formula.Decimal.Rounding

  Rounding a positive fraction to decimal figures, in exact arithmetic.

    * `roundDiv n d` — the whole number nearest to `n / d`; a tie goes to the even
      one.
    * `decade n d` — the power of ten that `n / d` reaches: `10 ^ e ≤ n / d` and
      `n / d < 10 ^ (e + 1)`.
    * `roundFigures precision n d` — `n / d` rounded to `precision` figures. A
      value that rounds up to the next power of ten moves to the next decade.

  `two_mul_roundDiv_le` and `le_two_mul_roundDiv` bound the rounding error by half
  a unit.
-/
import Formula.Text.Figures

namespace Formula

/-- The whole number nearest to `n / d`, the even one of two that are equally near. -/
def roundDiv (n d : Nat) : Nat :=
  if 2 * (n % d) < d then n / d
  else if d < 2 * (n % d) then n / d + 1
  else n / d + n / d % 2

/-- The exponent of the greatest power of ten that does not exceed `n / d`. -/
def decade (n d : Nat) : Int :=
  if d ≤ n then (figureCount (n / d) : Int) - 1 else -(figureCount ((d - 1) / n) : Int)

/-- A value rounded to decimal figures: `figures`, read as a whole number, has its
    first figure at the place of `10 ^ exponent`. -/
structure Rounded where
  figures : Nat
  exponent : Int
  deriving DecidableEq, Repr

/-- `n / d` in units of the last of `precision` figures, rounded. -/
def scaledFigures (precision n d : Nat) : Nat :=
  let shift : Int := (precision : Int) - 1 - decade n d
  roundDiv (n * Nat.pow 10 shift.toNat) (d * Nat.pow 10 (-shift).toNat)

/-- `n / d` rounded to `precision` figures. -/
def roundFigures (precision n d : Nat) : Rounded :=
  if scaledFigures precision n d = Nat.pow 10 precision then
    ⟨Nat.pow 10 (precision - 1), decade n d + 1⟩
  else
    ⟨scaledFigures precision n d, decade n d⟩

/-! ## Rounding to whole numbers -/

/-- Rounding goes up by at most half a unit. -/
theorem two_mul_roundDiv_le (n : Nat) {d : Nat} (hd : 0 < d) :
    2 * (roundDiv n d * d) ≤ 2 * n + d := by
  have hdiv := Nat.div_add_mod n d
  rw [Nat.mul_comm] at hdiv
  have hlt := Nat.mod_lt n hd
  unfold roundDiv
  split
  · omega
  · split
    · rw [Nat.add_mul]; omega
    · have : n / d % 2 = 0 ∨ n / d % 2 = 1 := Nat.mod_two_eq_zero_or_one _
      rcases this with h | h <;> rw [h, Nat.add_mul] <;> omega

/-- Rounding goes down by at most half a unit. -/
theorem le_two_mul_roundDiv (n : Nat) {d : Nat} (hd : 0 < d) :
    2 * n ≤ 2 * (roundDiv n d * d) + d := by
  have hdiv := Nat.div_add_mod n d
  rw [Nat.mul_comm] at hdiv
  have hlt := Nat.mod_lt n hd
  unfold roundDiv
  split
  · omega
  · split
    · rw [Nat.add_mul]; omega
    · have : n / d % 2 = 0 ∨ n / d % 2 = 1 := Nat.mod_two_eq_zero_or_one _
      rcases this with h | h <;> rw [h, Nat.add_mul] <;> omega

end Formula
