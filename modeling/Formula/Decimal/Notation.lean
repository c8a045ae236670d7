/-
  Formula.Decimal.Notation

  Three notations for floats.

    * `general precision x` — `precision` significant figures at most, without
      trailing zeros; positional where the decade of the rounded value is at least
      -4 and below `precision`, with an exponent elsewhere.
    * `fixedPoint places x` — positional, exactly `places` figures behind the point.
    * `scientific places x` — one figure before the point, exactly `places` behind
      it, and an exponent.

  An exponent has a sign and at least two figures. Zero keeps its sign; infinities
  and the value that is no number are written by the words `inf` and `nan`, and the
  latter has no sign.
-/
import Formula.Decimal.FloatValue
import Formula.Decimal.Rounding

namespace Formula

namespace Notation

/-- The exponent part of a number: the letter `e`, a sign, two figures or more. -/
def exponentPart (exponent : Int) : Text :=
  'e' :: (if exponent < 0 then '-' else '+') ::
    figures 10 (if exponent.natAbs < 100 then 2 else figureCount exponent.natAbs) exponent.natAbs

/-- The figures of a fraction without the zeros at its end. -/
def withoutTrailingZeros (t : Text) : Text :=
  (t.reverse.dropWhile (· == '0')).reverse

/-- A whole part and a fraction with a point between them, or the whole part
    alone if there is no fraction. -/
def pointed (whole fraction : Text) : Text :=
  if fraction = [] then whole else whole ++ '.' :: fraction

/-- Rounded figures in positional notation, without trailing zeros. -/
def positional (fs : Text) (exponent : Int) : Text :=
  if 0 ≤ exponent then
    pointed (fs.take (exponent.toNat + 1)) (withoutTrailingZeros (fs.drop (exponent.toNat + 1)))
  else
    pointed ['0'] (withoutTrailingZeros (List.replicate ((-exponent).toNat - 1) '0' ++ fs))

/-- Rounded figures with an exponent, without trailing zeros. -/
def exponential (fs : Text) (exponent : Int) : Text :=
  pointed (fs.take 1) (withoutTrailingZeros (fs.drop 1)) ++ exponentPart exponent

/-- General notation of rounded figures: positional where that takes few zeros. -/
def generalFigures (precision : Nat) (r : Rounded) : Text :=
  if -4 ≤ r.exponent ∧ r.exponent < precision then
    positional (figures 10 precision r.figures) r.exponent
  else
    exponential (figures 10 precision r.figures) r.exponent

/-- General notation of the fraction `n / d`. -/
def generalFraction (precision n d : Nat) : Text :=
  if n = 0 then ['0'] else generalFigures precision (roundFigures precision n d)

/-- The fraction `n / d` with `places` figures behind the point. -/
def fixedFraction (places n d : Nat) : Text :=
  let scaled := roundDiv (n * Nat.pow 10 places) d
  decimal (scaled / Nat.pow 10 places) ++ '.' ::
    figures 10 places (scaled % Nat.pow 10 places)

/-- The fraction `n / d` with one figure before the point and `places` behind it. -/
def scientificFraction (places n d : Nat) : Text :=
  let r : Rounded := if n = 0 then ⟨0, 0⟩ else roundFigures (places + 1) n d
  let fs := figures 10 (places + 1) r.figures
  fs.take 1 ++ '.' :: fs.drop 1 ++ exponentPart r.exponent

def signed (negative : Bool) (t : Text) : Text :=
  if negative then '-' :: t else t

/-- The value of a float, its finite values written by `fraction`. -/
def ofValue (fraction : Nat → Nat → Text) : FloatValue → Text
  | .nan => ['n', 'a', 'n']
  | .infinite negative => signed negative ['i', 'n', 'f']
  | .finite negative n d => signed negative (fraction n d)

end Notation

/-- General notation with at most `precision` significant figures. -/
def general (precision : Nat) (x : Float) : Text :=
  Notation.ofValue (Notation.generalFraction precision) (FloatValue.ofFloat x)

def fixedPoint (places : Nat) (x : Float) : Text :=
  Notation.ofValue (Notation.fixedFraction places) (FloatValue.ofFloat x)

def scientific (places : Nat) (x : Float) : Text :=
  Notation.ofValue (Notation.scientificFraction places) (FloatValue.ofFloat x)

end Formula
