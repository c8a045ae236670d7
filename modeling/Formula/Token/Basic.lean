/-
  Formula.Token.Basic

  Tokens: the units of a formula with what is known about them.

  A token has a kind, a name (its text), the number it stands for if it has one,
  and an arity. Callers may build any combination, so an operator token can have a
  name that is no operator's; whatever depends on a name is decided from the name.

    * `Token.sameAs` — the equality of tokens that looks at kind and name only.
    * `Token.precedence`, `Token.isLeftAssociative` — those of the operator that an
      operator token names. All other tokens have precedence zero.
    * `Token.rendered` — a number token renamed to the general notation of its
      number with six figures; the number itself stays as it is.
-/
import Formula.Decimal.Notation
import Formula.Operator
import Formula.Text.Quoted

namespace Formula

/-- The kinds of tokens. A reference names a variable. -/
inductive Kind where
  | number
  | operator
  | leftParen
  | rightParen
  | function
  | reference
  deriving DecidableEq, Repr

/-- The label of a kind, as descriptions of tokens show it. -/
def Kind.label : Kind → Text
  | number => "NUMBER".toList
  | operator => "OPERATOR".toList
  | leftParen => "LEFT_PAREN".toList
  | rightParen => "RIGHT_PAREN".toList
  | function => "FUNCTION".toList
  | reference => "VARIABLE".toList

/-- A unit of a formula. -/
structure Token where
  kind : Kind
  name : Text
  value : Option Float := none
  arity : Int := 0

/-- The text that a number has in a formula in reverse Polish order. -/
def formatNumber (x : Float) : Text :=
  general 6 x

namespace Token

def sameAs (s t : Token) : Bool :=
  s.kind == t.kind && s.name == t.name

def number (name : Text) (x : Float) : Token :=
  { kind := .number, name, value := some x }

def reference (name : Text) : Token :=
  { kind := .reference, name }

def function (name : Text) : Token :=
  { kind := .function, name, arity := 1 }

def ofOperator (op : Operator) : Token :=
  { kind := .operator, name := op.name, arity := op.arity }

def leftParen : Token :=
  { kind := .leftParen, name := ['('] }

def rightParen : Token :=
  { kind := .rightParen, name := [')'] }

/-- The operator that an operator token names. -/
def operator? (t : Token) : Option Operator :=
  if t.kind = .operator then Operator.ofName? t.name else none

/-- How tightly a token binds; zero for all but the operators of the table. -/
def precedence (t : Token) : Nat :=
  (t.operator?.map Operator.precedence).getD 0

/-- Whether a token is an operator that groups to the left. -/
def isLeftAssociative (t : Token) : Bool :=
  (t.operator?.map Operator.isLeftAssociative).getD false

/-- A number token under the general notation of its number. A number token
    without a number stays as it is. -/
def rendered (t : Token) : Token :=
  match t.value with
  | some x => number (formatNumber x) x
  | none => t

def describe (t : Token) : Text :=
  "Token(".toList ++ t.kind.label ++ ", ".toList ++ quoted t.name ++ [')']

/-- The names of a token list with one space between neighbours. -/
def spacedNames (ts : List Token) : Text :=
  spaced (ts.map Token.name)

/-! ## Equality -/

theorem sameAs_iff {s t : Token} : s.sameAs t = true ↔ s.kind = t.kind ∧ s.name = t.name := by
  simp [sameAs]

@[simp] theorem sameAs_refl (t : Token) : t.sameAs t = true :=
  sameAs_iff.2 ⟨rfl, rfl⟩

/-! ## Operator tokens -/

/-- A token that names an operator is an operator token. -/
theorem kind_of_operator? {t : Token} {op : Operator} (h : t.operator? = some op) :
    t.kind = .operator := by
  unfold operator? at h
  by_cases hk : t.kind = .operator
  · exact hk
  · rw [if_neg hk] at h
    cases h

theorem name_of_operator? {t : Token} {op : Operator} (h : t.operator? = some op) :
    t.name = op.name := by
  unfold operator? at h
  rw [if_pos (kind_of_operator? h)] at h
  exact Operator.ofName?_eq_some_iff.1 h

theorem precedence_of_operator? {t : Token} {op : Operator} (h : t.operator? = some op) :
    t.precedence = op.precedence := by
  rw [precedence, h]
  rfl

theorem isLeftAssociative_of_operator? {t : Token} {op : Operator}
    (h : t.operator? = some op) : t.isLeftAssociative = op.isLeftAssociative := by
  rw [isLeftAssociative, h]
  rfl

theorem exists_operator?_of_precedence_pos {t : Token} (h : 0 < t.precedence) :
    ∃ op, t.operator? = some op := by
  cases hop : t.operator? with
  | some op => exact ⟨op, rfl⟩
  | none =>
    rw [precedence, hop] at h
    exact absurd h (Nat.lt_irrefl 0)

/-- The tokens that bind most tightly group to the right. -/
theorem isLeftAssociative_of_three_le {t : Token} (h : 3 ≤ t.precedence) :
    t.isLeftAssociative = false := by
  obtain ⟨op, hop⟩ := exists_operator?_of_precedence_pos (Nat.lt_of_lt_of_le (by decide) h)
  rw [precedence_of_operator? hop] at h
  rw [isLeftAssociative_of_operator? hop, Operator.isLeftAssociative_of_three_le h]

theorem precedence_le_three (t : Token) : t.precedence ≤ 3 := by
  cases hop : t.operator? with
  | some op =>
    rw [precedence_of_operator? hop]
    exact op.precedence_le_three
  | none =>
    rw [precedence, hop]
    decide

end Token

end Formula
