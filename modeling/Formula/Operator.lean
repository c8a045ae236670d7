/-
  Formula.Operator

  The operators of a formula: five binary ones and negation, which is written in
  front of its operand.

    * `precedence` — addition and subtraction bind least, then multiplication and
      division, then power and negation.
    * `isLeftAssociative` — the four arithmetic operators group to the left, power
      and negation to the right.
    * `BinaryOperator.apply`, `negate` — the operations on floats. They never fail:
      division by zero gives an infinity or no number, and so on.
    * `BinaryOperator.title` — what the operation is called where it is reported.
    * `power` — powers; five exponents stand for an operation of their own.
    * `Operator.ofName?` — the operator that a name stands for.

  `ofName?_eq_some_iff` says that names and operators determine each other.
-/
import Formula.Decimal.Numeral

namespace Formula

/-- An operator between two operands. -/
inductive BinaryOperator where
  | add
  | subtract
  | multiply
  | divide
  | power
  deriving DecidableEq, Repr

/-- An operator: negation of the operand that follows, or a binary one. -/
inductive Operator where
  | negation
  | binary (op : BinaryOperator)
  deriving DecidableEq, Repr

/-- The power of a base. The exponents -1, 0, 1/2, 1 and 2 stand for the reciprocal,
    one, the square root, the base and the square, with the rounding and the signs of
    these operations: the power 1/2 of minus infinity is no number, that of minus
    zero is minus zero. -/
def power (a b : Float) : Float :=
  if b == -1.0 then 1.0 / a
  else if b == 0.0 then 1.0
  else if b == 0.5 then a.sqrt
  else if b == 1.0 then a
  else if b == 2.0 then a * a
  else Float.pow a b

/-- The operation of a binary operator on floats. -/
def BinaryOperator.apply : BinaryOperator → Float → Float → Float
  | add, a, b => a + b
  | subtract, a, b => a - b
  | multiply, a, b => a * b
  | divide, a, b => a / b
  | power, a, b => Formula.power a b

/-- What the operation of a binary operator is called. -/
def BinaryOperator.title : BinaryOperator → Text
  | add => "add".toList
  | subtract => "subtract".toList
  | multiply => "multiply".toList
  | divide => "divide".toList
  | power => "power".toList

/-- Negation of floats, as the product with minus one. -/
def negate (x : Float) : Float :=
  (-1.0) * x

namespace Operator

/-- The operators in the order of their table. -/
def all : List Operator :=
  [binary .add, binary .subtract, binary .multiply, binary .divide, binary .power, negation]

def symbol : Operator → Char
  | binary .add => '+'
  | binary .subtract => '-'
  | binary .multiply => '*'
  | binary .divide => '/'
  | binary .power => '^'
  | negation => '~'

def name (op : Operator) : Text :=
  [op.symbol]

/-- The operator that a name stands for. -/
def ofName? : Text → Option Operator
  | ['+'] => some (binary .add)
  | ['-'] => some (binary .subtract)
  | ['*'] => some (binary .multiply)
  | ['/'] => some (binary .divide)
  | ['^'] => some (binary .power)
  | ['~'] => some negation
  | _ => none

def precedence : Operator → Nat
  | binary .add | binary .subtract => 1
  | binary .multiply | binary .divide => 2
  | binary .power | negation => 3

/-- Whether a chain of operators of this precedence groups to the left. -/
def isLeftAssociative : Operator → Bool
  | binary .power | negation => false
  | _ => true

def arity : Operator → Int
  | binary _ => 2
  | negation => 1

@[simp] theorem ofName?_name (op : Operator) : ofName? op.name = some op := by
  cases op with
  | negation => rfl
  | binary b => cases b <;> rfl

/-- A name stands for an operator exactly if it is that operator's name. -/
theorem ofName?_eq_some_iff {t : Text} {op : Operator} :
    ofName? t = some op ↔ t = op.name := by
  constructor
  · intro h
    unfold ofName? at h
    split at h <;> cases h <;> rfl
  · rintro rfl
    exact ofName?_name op

theorem arity_le_two (op : Operator) : op.arity ≤ 2 := by
  cases op with
  | negation => decide
  | binary b => exact Int.le_refl 2

/-! ## Precedence -/

theorem precedence_le_three (op : Operator) : op.precedence ≤ 3 := by
  cases op with
  | negation => decide
  | binary b => cases b <;> decide

/-- The operators that bind most tightly group to the right. -/
theorem isLeftAssociative_of_three_le {op : Operator} (h : 3 ≤ op.precedence) :
    op.isLeftAssociative = false := by
  cases op with
  | negation => rfl
  | binary b => cases b <;> first | rfl | exact absurd h (by decide)

end Operator

/-- The value of a binary operation given by the operator's name; a name that
    stands for no binary operator gives no number. -/
def calculate (a b : Float) (name : Text) : Float :=
  match Operator.ofName? name with
  | some (.binary op) => op.apply a b
  | _ => notANumber

@[simp] theorem calculate_name (a b : Float) (op : BinaryOperator) :
    calculate a b (Operator.binary op).name = op.apply a b := by
  cases op <;> rfl

/-- The value of a unary operation given by the operator's name; a name other than
    that of negation gives no number. -/
def calculateUnary (x : Float) (name : Text) : Float :=
  match Operator.ofName? name with
  | some .negation => negate x
  | _ => notANumber

end Formula
