/-
  Formula.Conventions

  The constants of formulas gathered in one place, for callers that show them, and
  the check that they fit together.

    * `Conventions.areConsistent` — the precedences are the three expected levels,
      each operator is binary or negation, the delimiters are the operators and the
      parentheses, and the standard scope and table have the expected names.
    * `Conventions.verdict` — what a caller is told about that check.

  `areConsistent_eq_true` says that the check passes.
-/
import Formula.Function.Basic
import Formula.Scope
import Formula.Text.Pieces

namespace Formula.Conventions

/-- The name of the notation that numbers have in reverse Polish order: the general
    one. -/
def numberNotation : Text := ['g']

/-- The text that stands for a minus sign in front of a number or a name. -/
def negationMark : Text := Operator.negation.name

def binaryOperators : List Operator :=
  Operator.all.filter (· ≠ .negation)

def unaryOperators : List Operator :=
  Operator.all.filter (· = .negation)

/-- The characters that structure a formula: parentheses and operators. -/
def structural : Text :=
  ['(', ')'] ++ Operator.all.map Operator.symbol

/-- Whether the constants fit together. -/
def areConsistent : Bool :=
  Operator.all.map Operator.precedence == [1, 1, 2, 2, 3, 3] &&
    structural.all isDelimiter &&
    delimiters.all structural.contains &&
    Scope.standard.map Binding.name == [['p', 'i'], ['e']] &&
    Function.names Function.standard ==
      [['s', 'i', 'n'], ['c', 'o', 's'], ['t', 'a', 'n'], ['l', 'n'], ['l', 'o', 'g'],
       ['e', 'x', 'p'], ['s', 'q', 'r', 't'], ['a', 'b', 's']]

/-- What a caller is told about the check. -/
def verdict : Text :=
  if areConsistent then "Configuration validated successfully!".toList
  else "Configuration is inconsistent.".toList

theorem areConsistent_eq_true : areConsistent = true := by
  decide

end Formula.Conventions
