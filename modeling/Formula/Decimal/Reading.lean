/-
  Formula.Decimal.Reading

  Numbers read from text.

    * `readNumber t` — the number that a piece of a formula writes. The piece has to
      be a numeral as a whole, a leading `~` being read as a minus sign. A word
      that is a numeral only through a foreign letter cannot be converted, and that
      is a failure.
    * `readLoosely? t` — the number that an argument writes: a numeral without
      foreign letters, blanks around it and underscores between its digits allowed.
-/
import Formula.Decimal.Numeral
import Formula.Fault

namespace Formula

/-- A leading `~` replaced by a minus sign. -/
def withMinus : Text → Text
  | '~' :: t => '-' :: t
  | t => t

/-- The number that a piece of a formula writes, if it writes one. -/
def readNumber (t : Text) : Except Fault (Option Float) :=
  match Numeral.ofText? (withMinus t) with
  | none => .ok none
  | some n =>
    if t.any Numeral.isForeignI then .error (.unreadable (withMinus t)) else .ok (some n.toFloat)

/-! ## Arguments -/

/-- The blanks that may surround a number: all but the four separators of files,
    groups, records and units. -/
def isMargin (c : Char) : Bool :=
  isBlank c && !(0x1C ≤ c.toNat && c.toNat ≤ 0x1F)

/-- A text without the characters of a class at its two ends. -/
def trimmed (p : Char → Bool) (t : Text) : Text :=
  ((t.dropWhile p).reverse.dropWhile p).reverse

/-- Whether a text begins with a digit. -/
def startsWithDigit : Text → Bool
  | c :: _ => (decimalDigit? c).isSome
  | [] => false

/-- A text without its underscores, if each of them stands between two digits;
    `afterDigit` says whether a digit stands before the text. -/
def withoutUnderscores? : (afterDigit : Bool) → Text → Option Text
  | _, [] => some []
  | afterDigit, c :: rest =>
    if c = '_' then
      if afterDigit && startsWithDigit rest then withoutUnderscores? false rest else none
    else (withoutUnderscores? (decimalDigit? c).isSome rest).map (c :: ·)

/-- The number that an argument writes, if it writes one. -/
def readLoosely? (t : Text) : Option Float :=
  match (withoutUnderscores? false (trimmed isMargin t)).bind Numeral.ofText? with
  | none => none
  | some n => if t.any Numeral.isForeignI then none else some n.toFloat

end Formula
