/-
  Formula.Function.Checked

  Operations that report an operand outside their domain, or a result out of
  range, where the operations of the standard table answer an infinity or no
  number. A caller may put them into a table of its own.
-/
import Formula.Function.Basic
import Formula.Decimal.FloatValue

namespace Formula.Checked

/-- The reciprocal; zero of either sign has none. -/
def reciprocal (x : Float) : Except Fault Reply :=
  if x == 0.0 then .error .divisionByZero else .ok (.number (1.0 / x))

/-- The square root; a number below zero has none. -/
def squareRoot (x : Float) : Except Fault Reply :=
  if x < 0.0 then .error .outsideDomain else .ok (.number x.sqrt)

/-- The exponential; from a finite operand its result is finite. -/
def exponential (x : Float) : Except Fault Reply :=
  if x.isFinite && x.exp.isInf then .error .outOfRange else .ok (.number x.exp)

/-- The whole number next to a float, on the side of zero. -/
def truncated (x : Float) : Except Fault Int :=
  match FloatValue.ofFloat x with
  | .nan => .error .nanToInteger
  | .infinite _ => .error .infinityToInteger
  | .finite negative n d => .ok (FloatValue.truncate negative n d)

/-- The greatest whole number that a float reaches. -/
def floor (x : Float) : Except Fault Reply :=
  match FloatValue.ofFloat x with
  | .nan => .error .nanToInteger
  | .infinite _ => .error .infinityToInteger
  | .finite negative n d =>
    .ok (.number (Float.ofInt (Int.fdiv (if negative then -(n : Int) else n) d)))

end Formula.Checked
