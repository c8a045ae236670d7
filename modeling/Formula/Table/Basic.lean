/-
  Formula.Table.Basic

  Tables of an expression: its numbers at a list of points.

    * `tabulate e points name base` — the table of `e` where the variable `name` runs
      through `points` and the scope `base` binds all other variables. It has one
      row for each point, in order, and fails with the first failure.
    * `tabulateSamples e s name base` — the same for points that are nested in lists. It fails
      before any evaluation if `s` is not regular.
-/
import Formula.Expression
import Formula.Samples

namespace Formula

/-- The numbers of an expression at a list of points. -/
structure Table where
  /-- The expression. -/
  title : Text
  /-- The variable that runs through the points. -/
  heading : Text
  points : List Float
  values : List Float

/-- The numbers of an expression at a list of points. -/
def tabulate (e : Expression) (points : List Float) (name : Text) (base : Scope) :
    Except Fault Table :=
  (points.mapM fun x => e.evaluateWith (base.assign (orDefaultVariable name) x)).map fun values =>
    { title := e.text, heading := orDefaultVariable name, points, values }

/-- The numbers of an expression at a nested list of points, from left to right. -/
def tabulateSamples (e : Expression) (s : Samples) (name : Text) (base : Scope) :
    Except Fault Table :=
  s.numbers?.bind fun points => tabulate e points name base

end Formula
