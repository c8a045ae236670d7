/-
  Formula.Decimal.Numeral

  Numerals: the texts that write a number, and the number that each writes.

  A numeral is an optional sign and then either a decimal — digits, among which
  one point may stand, and an optional exponent — or one of the words `inf`,
  `infinity` and `nan` in any letter case. Every script's decimal digits serve as
  digits, and the two foreign letters that case folding identifies with `i`
  serve as that letter in a word.

    * `Numeral` — what a numeral denotes: an exact decimal, an infinity or a
      value that is no number, each with its sign.
    * `Numeral.ofText? t` — the denotation of `t`, if `t` is a numeral.
    * `Numeral.toFloat` — the nearest float, the sign being applied last, so that
      numerals that differ in their sign denote opposite floats.

  The whole text has to be a numeral; nothing is read from part of a text.
-/
import Formula.Decimal.Digit

namespace Formula

/-- What a numeral denotes. `decimal negative digits exponent` is
    `digits * 10 ^ exponent`, below zero if `negative`. -/
inductive Numeral where
  | decimal (negative : Bool) (digits : Nat) (exponent : Int)
  | infinity (negative : Bool)
  | nan (negative : Bool)
  deriving DecidableEq, Repr

/-- The float that stands for no number. -/
def notANumber : Float := 0.0 / 0.0

def positiveInfinity : Float := 1.0 / 0.0

/-- A float, or its opposite if `negative`. -/
def withSign (negative : Bool) (x : Float) : Float :=
  if negative then -x else x

namespace Numeral

def negative : Numeral → Bool
  | decimal s _ _ => s
  | infinity s => s
  | nan s => s

def opposite : Numeral → Numeral
  | decimal s digits exponent => decimal (!s) digits exponent
  | infinity s => infinity (!s)
  | nan s => nan (!s)

/-- The float nearest to the magnitude of a numeral; ties go to the even neighbour. -/
def magnitude : Numeral → Float
  | decimal _ digits exponent =>
    OfScientific.ofScientific digits (decide (exponent < 0)) exponent.natAbs
  | infinity _ => positiveInfinity
  | nan _ => notANumber

def toFloat (n : Numeral) : Float :=
  withSign n.negative n.magnitude

/-! ## Words -/

/-- The letters outside the basic alphabet that case folding identifies with `i`. -/
def isForeignI (c : Char) : Bool :=
  c = 'ı' || c = 'İ'

/-- A letter without its case. -/
def foldCase (c : Char) : Char :=
  if isForeignI c then 'i' else c.toLower

/-- The numerals that are words. -/
def ofWord? (negative : Bool) (t : Text) : Option Numeral :=
  let word := t.map foldCase
  if word = ['i', 'n', 'f'] ∨ word = ['i', 'n', 'f', 'i', 'n', 'i', 't', 'y'] then
    some (infinity negative)
  else if word = ['n', 'a', 'n'] then some (nan negative)
  else none

/-! ## Decimals -/

/-- All of a text as digits, at least one. -/
def allDigits? (t : Text) : Option Nat :=
  match digitRun t with
  | (d :: ds, []) => some (digitsValue (d :: ds))
  | _ => none

/-- The value of the exponent part that ends a decimal: nothing, or the letter
    `e`, an optional sign and digits. -/
def exponent? : Text → Option Int
  | [] => some 0
  | c :: rest =>
    if c = 'e' ∨ c = 'E' then
      match rest with
      | '-' :: ds => (allDigits? ds).map fun n => -(n : Int)
      | '+' :: ds => (allDigits? ds).map fun n => (n : Int)
      | ds => (allDigits? ds).map fun n => (n : Int)
    else none

/-- The digits behind a point, if a point stands in front, and the rest. -/
def fractionRun : Text → List Nat × Text
  | '.' :: rest => digitRun rest
  | t => ([], t)

/-- The numerals that are decimals. -/
def ofDecimal? (negative : Bool) (t : Text) : Option Numeral :=
  let whole := digitRun t
  let fraction := fractionRun whole.2
  if whole.1 ++ fraction.1 = [] then none
  else (exponent? fraction.2).map fun e =>
    decimal negative (digitsValue (whole.1 ++ fraction.1)) (e - fraction.1.length)

/-! ## Numerals -/

def ofUnsigned? (negative : Bool) (t : Text) : Option Numeral :=
  (ofWord? negative t).or (ofDecimal? negative t)

def ofText? : Text → Option Numeral
  | '-' :: t => ofUnsigned? true t
  | '+' :: t => ofUnsigned? false t
  | t => ofUnsigned? false t

end Numeral

end Formula
