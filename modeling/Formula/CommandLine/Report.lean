/-
  Formula.CommandLine.Report

  Reports: what the program prints about an expression.

    * `Report.label p` — how a point is shown: the bindings of a scope, a number, or
      nothing for the standard scope.
    * `Report.lines e ps` — the expression, its reverse Polish order, its number at each
      of the points, and a closing line.
    * `Report.demonstration` — the reports of the sample expressions, one after another.
-/
import Formula.Expression

namespace Formula.Report

def showBinding (b : Binding) : Text :=
  b.name ++ " = ".toList ++ formatNumber b.value

def label : Point → Text
  | .nowhere => []
  | .number x => formatNumber x
  | .within scope => List.intercalate ", ".toList (scope.map showBinding)

/-- The line about a point. -/
def pointLine (e : Expression) (p : Point) : Except Fault Text :=
  (e.evaluate p).map fun y => "f(".toList ++ label p ++ ") = ".toList ++ formatNumber y

def lines (e : Expression) (ps : List Point) : Except Fault (List Text) :=
  (ps.mapM (pointLine e)).map fun body =>
    ("f(x) = ".toList ++ e.render) :: ("rpn: ".toList ++ e.renderRpn) :: body ++ ["===".toList]

/-- The report on the expression that a text writes, with the standard functions. -/
def ofText (t : Text) (ps : List Point) : Except Fault (List Text) :=
  (Expression.ofText? Function.standard .dropped t).bind fun e => lines e ps

def only (name : Char) (x : Float) : Point :=
  .within [⟨[name], x⟩]

/-- The sample expressions with the points at which they are evaluated. -/
def samples : List (Text × List Point) :=
  [("x^3 - 2*x^2 -x + 1".toList, [only 'x' (-1.0), .number (-0.5)]),
   ("2*a + 1".toList, [only 'a' (-1.0), only 'a' (-10.0), .number 10.0]),
   ("e^~x - ln(x)".toList, [.number 1.0, .number 1.5]),
   ("e^~(x^2) - x".toList, [.number (-0.5), .number 0.5]),
   ("x^4 - 6*x^3 + 12*x^2 - 10*x + 3".toList, [.number 3.0, .number 1.0, .number 0.0]),
   ("e".toList, [.nowhere]),
   ("pi".toList, [.nowhere]),
   ("~pi".toList, [.nowhere]),
   ("sin(x)".toList, [.number (3.1416 / 2.0)]),
   ("~7*e^~x + sin(tan(x^3) + cos(x - pi))".toList, [.number (3.1416 / 2.0)])]

/-- The reports on the sample expressions. -/
def demonstration : Except Fault (List Text) :=
  (samples.mapM fun sample => ofText sample.1 sample.2).map List.flatten

end Formula.Report
