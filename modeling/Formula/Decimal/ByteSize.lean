/-
  Formula.Decimal.ByteSize

  Sizes in bytes as they are shown: in the greatest unit that the size reaches, with
  three figures or, from a thousand units on, as a whole number.

    * `ByteSize.scale bytes` — the power of 1024 of the unit. A size that rounds to
      1024 units is shown as one of the next unit.
    * `ByteSize.render bytes` — the number of units and the unit.
-/
import Formula.Decimal.Rounding

namespace Formula.ByteSize

def units : List Text :=
  ["bytes".toList, "KiB".toList, "MiB".toList, "GiB".toList, "TiB".toList, "PiB".toList,
   "EiB".toList]

/-- The greatest power of 1024 that a size reaches. -/
def reached (bytes : Nat) : Nat :=
  Nat.log2 bytes / 10

/-- The power of 1024 of the unit in which a size is shown. -/
def scale (bytes : Nat) : Nat :=
  if roundDiv bytes (Nat.pow 1024 (reached bytes)) = 1024 then reached bytes + 1 else reached bytes

/-- The positive fraction `n / d` with three figures, or as a whole number from a
    thousand on. A point stands behind a whole number too. -/
def threeFigures (n d : Nat) : Text :=
  if roundDiv n d < 1000 then
    let r := roundFigures 3 n d
    let fs := figures 10 3 r.figures
    fs.take (r.exponent.toNat + 1) ++ '.' :: fs.drop (r.exponent.toNat + 1)
  else decimal (roundDiv n d) ++ ['.']

def render (bytes : Nat) : Text :=
  let amount :=
    if scale bytes = 0 then decimal bytes else threeFigures bytes (Nat.pow 1024 (scale bytes))
  spaced [amount, units.getD (scale bytes) []]

end Formula.ByteSize
