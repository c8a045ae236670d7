/-
  Formula.Depth

  How many values a formula in reverse Polish order leaves, found without computing
  any: all variables are taken to be bound and all functions to be known.

    * `Depth.step depth t` — the number of values after one token; there is none if a
      function finds no value.
    * `depth? ts` — the number of values that `ts` leaves.
    * `isComplete ts` — `ts` leaves exactly one value.

  An operator takes as many values as its token's arity says, and is skipped if
  there are fewer.
-/
import Formula.Token.Basic

namespace Formula

/-- The number of values after one token. -/
def Depth.step (depth : Int) (t : Token) : Option Int :=
  match t.kind with
  | .number | .reference => some (depth + 1)
  | .function => if depth < 1 then none else some depth
  | .operator => some (if t.arity ≤ depth then depth - t.arity + 1 else depth)
  | .leftParen | .rightParen => some depth

/-- The number of values after a token list that starts with `depth` values. -/
def Depth.from? : (depth : Int) → List Token → Option Int
  | depth, [] => some depth
  | depth, t :: ts => (Depth.step depth t).bind fun depth => Depth.from? depth ts

def depth? (ts : List Token) : Option Int :=
  Depth.from? 0 ts

def isComplete (ts : List Token) : Bool :=
  depth? ts == some 1

/-! ## Lists of tokens -/

@[simp] theorem Depth.from?_nil (depth : Int) : Depth.from? depth [] = some depth := rfl

@[simp] theorem Depth.from?_cons (depth : Int) (t : Token) (ts : List Token) :
    Depth.from? depth (t :: ts) = (Depth.step depth t).bind fun d => Depth.from? d ts := rfl

/-- Two lists one after the other are counted one after the other. -/
theorem Depth.from?_append (depth : Int) (xs ys : List Token) :
    Depth.from? depth (xs ++ ys) = (Depth.from? depth xs).bind fun d => Depth.from? d ys := by
  induction xs generalizing depth with
  | nil => rfl
  | cons t xs ih =>
    rw [List.cons_append, Depth.from?_cons, Depth.from?_cons]
    cases Depth.step depth t with
    | none => rfl
    | some d => exact ih d

end Formula
