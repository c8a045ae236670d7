/-
  Formula.Text.Figures

  Natural numbers written in positional notation.

    * `figures base width n` — the last `width` figures of `n` in `base`, with
      leading zeros where `n` is short.
    * `figureCount n` — how many decimal figures `n` has; zero has none.
    * `decimal n` — `n` in decimal without leading zeros; zero is one `0`.

  `lt_pow_figureCount` and `pow_le_of_figureCount` place a number between the two
  powers of ten that its figure count names.
-/
import Formula.Text.Basic

namespace Formula

/-- The last `width` figures of `n` in `base`, most significant first. -/
def figures (base : Nat) : (width : Nat) → (n : Nat) → Text
  | 0, _ => []
  | width + 1, n => figures base width (n / base) ++ [Nat.digitChar (n % base)]

/-- The number of decimal figures of a number, none for zero. -/
def figureCount (n : Nat) : Nat :=
  if n = 0 then 0 else figureCount (n / 10) + 1
termination_by n

/-- A number in decimal, without leading zeros. -/
def decimal (n : Nat) : Text :=
  figures 10 (max 1 (figureCount n)) n

/-- An integer in decimal, with a minus sign below zero. -/
def signedDecimal (n : Int) : Text :=
  if n < 0 then '-' :: decimal n.natAbs else decimal n.natAbs

/-! ## The count of figures -/

@[simp] theorem figureCount_zero : figureCount 0 = 0 := by
  rw [figureCount]; rfl

theorem figureCount_of_ne_zero {n : Nat} (h : n ≠ 0) :
    figureCount n = figureCount (n / 10) + 1 := by
  rw [figureCount, if_neg h]

/-- A number lies below the power of ten that its figure count names. -/
theorem lt_pow_figureCount (n : Nat) : n < Nat.pow 10 (figureCount n) := by
  induction n using Nat.strongRecOn with
  | ind n ih =>
    by_cases h : n = 0
    · subst h
      exact Nat.pow_pos (by decide)
    · have hlt := ih (n / 10) (Nat.div_lt_self (Nat.pos_of_ne_zero h) (by decide))
      rw [figureCount_of_ne_zero h]
      show n < Nat.pow 10 (figureCount (n / 10)) * 10
      omega

/-- A positive number reaches the power of ten one below its figure count. -/
theorem pow_le_of_figureCount {n k : Nat} (h : figureCount n = k + 1) : Nat.pow 10 k ≤ n := by
  induction k generalizing n with
  | zero =>
    have : n ≠ 0 := by rintro rfl; simp at h
    show 1 ≤ n
    omega
  | succ k ih =>
    have hn : n ≠ 0 := by rintro rfl; simp at h
    rw [figureCount_of_ne_zero hn] at h
    have := ih (Nat.succ.inj h)
    show Nat.pow 10 k * 10 ≤ n
    omega

end Formula
