/-
  Formula.Text.Quoted

  Text between quotes, as messages show the text they are about.

    * `quoted t` — `t` between single quotes, or between double quotes when it
      holds a single quote and no double one. The quote in use and the backslash
      are escaped by a backslash, line breaks and tabs by their letter, and every
      other character that is not printable by its code point in hexadecimal.
-/
import Formula.Text.Figures
import Formula.Text.Printable

namespace Formula

/-- The quote that surrounds a text: double when that avoids an escape. -/
def quoteFor (t : Text) : Char :=
  if t.contains '\'' && !t.contains '"' then '"' else '\''

/-- A code point in hexadecimal, in the shortest of the three escapes that holds it. -/
def escapedCodePoint (n : Nat) : Text :=
  if n < 0x100 then '\\' :: 'x' :: figures 16 2 n
  else if n < 0x10000 then '\\' :: 'u' :: figures 16 4 n
  else '\\' :: 'U' :: figures 16 8 n

/-- A character as it stands between the given quotes. -/
def quotedChar (quote c : Char) : Text :=
  if c = quote ∨ c = '\\' then ['\\', c]
  else if c = '\t' then ['\\', 't']
  else if c = '\n' then ['\\', 'n']
  else if c = '\r' then ['\\', 'r']
  else if isPrintable c then [c]
  else escapedCodePoint c.toNat

/-- A text between quotes. -/
def quoted (t : Text) : Text :=
  quoteFor t :: t.flatMap (quotedChar (quoteFor t)) ++ [quoteFor t]

end Formula
