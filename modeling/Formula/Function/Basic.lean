/-
  Formula.Function.Basic

  Functions of one real variable, as a formula may call them, and the standard
  table of eight.

    * `Function` — a name and an operation that answers a float or fails. Callers
      supply functions of their own, so an operation may also answer something
      that is no real number. It may be called on a missing number, since a number
      token of a caller need not carry one.
    * `Function.value f x` — the answer of `f` at `x` as a float; an answer that is
      no real number is a failure.
    * `Function.find? table name` — the first function of a table with a name.
    * `Function.standard` — the table in use where the caller gives none. Its
      functions never fail on a number: outside their domain they answer no number.
-/
import Formula.Fault
import Formula.Decimal.Numeral

namespace Formula

/-- What the operation of a function answers. -/
inductive Reply where
  | number (x : Float)
  /-- Something that is no real number, of the given kind. -/
  | other (kind : Text)

/-- A named function of one real variable, which may be called on a missing number. -/
structure Function where
  name : Text
  run : Option Float → Except Fault Reply

namespace Function

/-- The function of an operation on floats, which fails on a missing number only. -/
def ofOperation (name operation : Text) (f : Float → Float) : Function where
  name
  run
    | some x => .ok (.number (f x))
    | none => .error (.missingOperand operation none)

/-- A function that is called like its operation. -/
def total (name : Text) (f : Float → Float) : Function :=
  ofOperation name name f

/-- The absolute value. A missing number is made a float first, which is no number. -/
def absolute : Function where
  name := ['a', 'b', 's']
  run x := .ok (.number (x.getD notANumber).abs)

/-- The answer of a function as a float. -/
def value (f : Function) (x : Option Float) : Except Fault Float :=
  match f.run x with
  | .ok (.number y) => .ok y
  | .ok (.other kind) => .error (.notReal kind)
  | .error fault => .error fault

def find? (table : List Function) (name : Text) : Option Function :=
  table.find? fun f => f.name = name

def standard : List Function :=
  [total ['s', 'i', 'n'] Float.sin,
   total ['c', 'o', 's'] Float.cos,
   total ['t', 'a', 'n'] Float.tan,
   ofOperation ['l', 'n'] ['l', 'o', 'g'] Float.log,
   ofOperation ['l', 'o', 'g'] ['l', 'o', 'g', '1', '0'] Float.log10,
   total ['e', 'x', 'p'] Float.exp,
   total ['s', 'q', 'r', 't'] Float.sqrt,
   absolute]

def names (table : List Function) : List Text :=
  table.map Function.name

/-- An operation on floats fails only on a missing number, which is contained. -/
theorem isContained_of_ofOperation {name operation : Text} {g : Float → Float}
    {x : Option Float} {fault : Fault} (h : (ofOperation name operation g).value x = .error fault) :
    fault.isContained = true := by
  cases x with
  | some x => cases h
  | none =>
    cases h
    rfl

/-- All failures of the standard functions are contained. The absolute value never fails. -/
theorem isContained_of_standard {f : Function} (hf : f ∈ standard) {x : Option Float}
    {fault : Fault} (h : f.value x = .error fault) : fault.isContained = true := by
  simp only [standard, List.mem_cons, List.not_mem_nil, or_false] at hf
  rcases hf with rfl | rfl | rfl | rfl | rfl | rfl | rfl | rfl
  all_goals first | exact isContained_of_ofOperation h | cases h

end Function

end Formula
