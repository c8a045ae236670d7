/-
  Formula.Decimal.FloatValue

  The exact value of a float. A finite float is a whole number times a power of
  two, hence a fraction of whole numbers; everything that is written about a float
  starts from that fraction and not from floating-point operations.

    * `FloatValue.ofFloat x` — the value of `x`: no number, an infinity, or a
      signed fraction. Both zeros are fractions with numerator zero.
-/
import Formula.Decimal.Numeral

namespace Formula

/-- The exact value of a float. A finite value is `numerator / denominator`, below
    zero if `negative`; the denominator is positive. -/
inductive FloatValue where
  | nan
  | infinite (negative : Bool)
  | finite (negative : Bool) (numerator denominator : Nat)
  deriving DecidableEq, Repr

namespace FloatValue

def isNegative : Float.Model.UnpackedFloat.Sign → Bool
  | .negative => true
  | .positive => false

/-- `mantissa * 2 ^ exponent` as a signed fraction. -/
def ofBinary (negative : Bool) (mantissa : Nat) (exponent : Int) : FloatValue :=
  finite negative (mantissa * Nat.pow 2 exponent.toNat) (Nat.pow 2 (-exponent).toNat)

def ofFloat (x : Float) : FloatValue :=
  match x.toModel.unpack with
  | .notANumber => nan
  | .infinity s => infinite (isNegative s)
  | .zero s => finite (isNegative s) 0 1
  | .finite s mantissa exponent _ => ofBinary (isNegative s) mantissa exponent

/-- The whole number nearest to a fraction on the side of zero. -/
def truncate (negative : Bool) (numerator denominator : Nat) : Int :=
  if negative then -(numerator / denominator : Nat) else (numerator / denominator : Nat)

end FloatValue

end Formula
