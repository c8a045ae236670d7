/-
  Formula.Table.Layout

  Tables as text: a heading line with the variable, then one line for each point,
  the point on the left and the value on the right.

    * `column missing xs` — the cells of a column of floats. All finite cells show
      the same number of places: six, without the zeros that all of them end in, but
      one place at least. A column with a number too small for six places, or with a
      number above a million and a cell that would get too wide, is written in
      scientific notation throughout. `missing` is shown for what is no number.
    * `Table.layout` — the lines of a table. Points are aligned on the left, values on
      the right, and three blanks separate the two columns.

  A number that is not negative has a blank in place of the sign; the point column
  gives up blanks that all its cells begin with.
-/
import Formula.Decimal.Notation
import Formula.Table.Basic

namespace Formula

namespace Layout

/-- The number of places behind the point. -/
def places : Nat := 6

/-- The width from which a column with large numbers counts as too wide. -/
def widest : Nat := 12

/-- A number above this is large. -/
def large : Float := 1e6

/-- A positive number below this does not show in six places. -/
def small : Float := 1e-6

/-- The number of blanks between the two columns. -/
def gap : Nat := 3

def trailingZeros (t : Text) : Nat :=
  (t.reverse.takeWhile (· == '0')).length

/-- The zeros at the end of all finite cells that a column gives up: those that all
    of them have, but never the first place behind the point. -/
def sharedZeros (xs : List Float) : Nat :=
  (xs.filter Float.isFinite).foldl (fun n x => min n (trailingZeros (fixedPoint places x)))
    (places - 1)

/-- A text with a blank in place of the sign that is not there. -/
def withSignPlace (t : Text) : Text :=
  match t with
  | '-' :: _ => t
  | _ => ' ' :: t

/-- A cell: `missing` for what is no number, otherwise the text with its sign place. -/
def cell (missing : Text) (write : Float → Text) (x : Float) : Text :=
  if x.isNaN then missing else withSignPlace (write x)

def dropEnd (n : Nat) (t : Text) : Text :=
  t.take (t.length - n)

/-- A float in positional notation, with `dropped` places fewer if it is finite. -/
def shortFixed (dropped : Nat) (x : Float) : Text :=
  dropEnd (if x.isFinite then dropped else 0) (fixedPoint places x)

/-- The cells of a column in positional notation. -/
def fixedColumn (missing : Text) (xs : List Float) : List Text :=
  xs.map (cell missing (shortFixed (sharedZeros xs)))

/-- Whether a column needs scientific notation. -/
def isScientific (missing : Text) (xs : List Float) : Bool :=
  (xs.any fun x => 0.0 < x.abs && x.abs < small) ||
    ((fixedColumn missing xs).any fun t => widest < t.length) && xs.any fun x => large < x.abs

/-- The cells of a column. -/
def column (missing : Text) (xs : List Float) : List Text :=
  if isScientific missing xs then xs.map (cell missing (scientific places))
  else fixedColumn missing xs

def padRight (width : Nat) (t : Text) : Text :=
  t ++ List.replicate (width - t.length) ' '

def padLeft (width : Nat) (t : Text) : Text :=
  List.replicate (width - t.length) ' ' ++ t

def width (ts : List Text) : Nat :=
  ts.foldl (fun n t => max n t.length) 0

/-- The number of blanks that a text begins with. -/
def leadingBlanks (t : Text) : Nat :=
  (t.takeWhile (· == ' ')).length

/-- Texts without the blanks that all of them begin with. -/
def withoutSharedBlanks : List Text → List Text
  | [] => []
  | t :: ts =>
    let shared := ts.foldl (fun n t => min n (leadingBlanks t)) (leadingBlanks t)
    (t :: ts).map (List.drop shared)

/-- The column of points, aligned on the left. -/
def pointColumn (points : List Float) : List Text :=
  let cells := column " NaN".toList points
  let aligned := withoutSharedBlanks (cells.map (padRight (width cells)))
  aligned.map (padRight (width aligned + gap))

/-- The column of values, aligned on the right. -/
def valueColumn (values : List Float) : List Text :=
  let cells := column "NaN".toList values
  cells.map (padLeft (width cells))

end Layout

/-- The lines of a table; a table without points is one line that says so. -/
def Table.layout (table : Table) : List Text :=
  if table.points.isEmpty then ["Series([], )".toList]
  else
    table.heading ::
      List.zipWith (· ++ ·) (Layout.pointColumn table.points) (Layout.valueColumn table.values)

end Formula
