/-
  Formula.Polish

  Reverse Polish order: every operator and every function behind its operands, no
  parentheses. Tokens are put into that order in one pass with a stack of pending
  operators, functions and opening parentheses, the most recent one first.

    * `step stack t` — what one token does: the tokens that it sends to the output
      and the stack that it leaves.
    * `convert stack ts` — the output from the tokens `ts` when `stack` is pending.
    * `emitted stack ts`, `pending stack ts` — the part of that output that is sent
      before the end of `ts`, and the stack that is pending there.
    * `ofTokens ts` — `ts` in reverse Polish order.

  An operator first releases the pending operators that bind more tightly, or
  equally tightly if it groups to the left; it stops at a parenthesis, and also at a
  function, which binds less than any operator. A closing parenthesis releases
  everything down to its opening one, and the function that stands in front of that.
  Parentheses that do not match are no error: they are dropped.

  Number tokens are renamed to the general notation of their number.
-/
import Formula.Token.Basic
import Formula.Fault

namespace Formula

namespace Polish

/-- Whether the pending token `top` is released by the operator token `t`. -/
def releases (t top : Token) : Bool :=
  top.kind != .leftParen &&
    (t.precedence < top.precedence || t.precedence == top.precedence && t.isLeftAssociative)

/-- Whether a pending token is no opening parenthesis. -/
def isInside (top : Token) : Bool :=
  top.kind != .leftParen

/-- The function that a closing parenthesis completes, with the stack under it:
    the one on top of the stack, if a function is there. -/
def completed : List Token → List Token × List Token
  | f :: stack => if f.kind = .function then ([f], stack) else ([], f :: stack)
  | [] => ([], [])

/-- What one token does: the tokens sent to the output and the stack that is left. -/
def step (stack : List Token) (t : Token) : List Token × List Token :=
  match t.kind with
  | .number => ([t.rendered], stack)
  | .reference => ([t], stack)
  | .function | .leftParen => ([], t :: stack)
  | .operator => (stack.takeWhile (releases t), t :: stack.dropWhile (releases t))
  | .rightParen =>
    let done := completed (stack.dropWhile isInside).tail
    (stack.takeWhile isInside ++ done.1, done.2)

/-- The output from a token list, given the pending stack before it. At the end all
    that is pending goes to the output, opening parentheses excepted. -/
def convert : (stack ts : List Token) → List Token
  | stack, [] => stack.filter isInside
  | stack, t :: ts =>
    let done := step stack t
    done.1 ++ convert done.2 ts

def pending (stack ts : List Token) : List Token :=
  ts.foldl (fun stack t => (step stack t).2) stack

def emitted : (stack ts : List Token) → List Token
  | _, [] => []
  | stack, t :: ts => (step stack t).1 ++ emitted (step stack t).2 ts

def ofTokens (ts : List Token) : List Token :=
  convert [] ts

/-- Whether a token is a number token without a number. -/
def lacksValue (t : Token) : Bool :=
  t.kind == .number && t.value.isNone

/-- A token list in reverse Polish order, unless one of its numbers cannot be
    written because it is missing. -/
def ofTokens? (ts : List Token) : Except Fault (List Token) :=
  if ts.any lacksValue then .error .missingValue else .ok (ofTokens ts)

/-! ## Single tokens and lists -/

@[simp] theorem convert_nil (stack : List Token) : convert stack [] = stack.filter isInside := rfl

@[simp] theorem convert_cons (stack : List Token) (t : Token) (ts : List Token) :
    convert stack (t :: ts) = (step stack t).1 ++ convert (step stack t).2 ts := rfl

@[simp] theorem emitted_nil (stack : List Token) : emitted stack [] = [] := rfl

@[simp] theorem emitted_cons (stack : List Token) (t : Token) (ts : List Token) :
    emitted stack (t :: ts) = (step stack t).1 ++ emitted (step stack t).2 ts := rfl

@[simp] theorem pending_nil (stack : List Token) : pending stack [] = stack := rfl

@[simp] theorem pending_cons (stack : List Token) (t : Token) (ts : List Token) :
    pending stack (t :: ts) = pending (step stack t).2 ts := rfl

/-! ## Steps, by the kind of the token -/

variable {t : Token} (stack : List Token)

theorem step_number (h : t.kind = .number) : step stack t = ([t.rendered], stack) := by
  simp only [step, h]

theorem step_reference (h : t.kind = .reference) : step stack t = ([t], stack) := by
  simp only [step, h]

theorem step_function (h : t.kind = .function) : step stack t = ([], t :: stack) := by
  simp only [step, h]

theorem step_leftParen (h : t.kind = .leftParen) : step stack t = ([], t :: stack) := by
  simp only [step, h]

theorem step_operator (h : t.kind = .operator) :
    step stack t = (stack.takeWhile (releases t), t :: stack.dropWhile (releases t)) := by
  simp only [step, h]

theorem step_rightParen (h : t.kind = .rightParen) :
    step stack t =
      (stack.takeWhile isInside ++ (completed (stack.dropWhile isInside).tail).1,
        (completed (stack.dropWhile isInside).tail).2) := by
  simp only [step, h]

/-! ## What an operator releases -/

/-- An opening parenthesis is released by no operator. -/
theorem releases_leftParen (o : Token) (h : t.kind = .leftParen) : releases o t = false := by
  simp [releases, h]

/-- An operator releases nothing that binds less tightly. -/
theorem releases_of_lt {o top : Token} (h : top.precedence < o.precedence) :
    releases o top = false := by
  have hlt : ¬ o.precedence < top.precedence := by omega
  have hne : o.precedence ≠ top.precedence := by omega
  simp [releases, hlt, hne]

/-- An operator that groups to the right releases nothing that binds equally tightly. -/
theorem releases_of_le {o top : Token} (h : top.precedence ≤ o.precedence)
    (hright : o.isLeftAssociative = false) : releases o top = false := by
  have hlt : ¬ o.precedence < top.precedence := by omega
  simp [releases, hlt, hright]

/-- An operator that groups to the left releases all that binds at least as tightly. -/
theorem releases_of_isLeftAssociative {o top : Token} (hleft : o.isLeftAssociative = true)
    (hpos : 0 < top.precedence) (h : o.precedence ≤ top.precedence) : releases o top = true := by
  obtain ⟨op, hop⟩ := Token.exists_operator?_of_precedence_pos hpos
  have hkind : top.kind = .operator := Token.kind_of_operator? hop
  have hcase : o.precedence < top.precedence ∨ o.precedence = top.precedence := by omega
  rcases hcase with hlt | heq
  · simp [releases, hkind, hlt]
  · simp [releases, hkind, heq, hleft]

/-- Nothing is taken from a stack whose top is not. -/
theorem takeWhile_of_head? {stack : List Token} {p : Token → Bool}
    (h : ∀ top ∈ stack.head?, p top = false) :
    stack.takeWhile p = [] ∧ stack.dropWhile p = stack := by
  cases stack with
  | nil => exact ⟨rfl, rfl⟩
  | cons top rest =>
    have htop : p top = false := h top rfl
    simp [htop]

/-! ## Inside a group -/

theorem isInside_eq_false_iff : isInside t = false ↔ t.kind = .leftParen := by
  simp [isInside]

theorem isInside_eq_true_iff : isInside t = true ↔ t.kind ≠ .leftParen := by
  simp [isInside]

theorem isInside_of_precedence_pos (h : 0 < t.precedence) : isInside t = true := by
  obtain ⟨op, hop⟩ := Token.exists_operator?_of_precedence_pos h
  rw [isInside_eq_true_iff, Token.kind_of_operator? hop]
  decide

theorem completed_cons_function {f : Token} (h : f.kind = .function) :
    completed (f :: stack) = ([f], stack) := by
  simp only [completed, if_pos h]

/-- Where no function is on top, a closing parenthesis completes none. -/
theorem completed_of_head? {stack : List Token} (h : ∀ top ∈ stack.head?, top.kind ≠ .function) :
    completed stack = ([], stack) := by
  cases stack with
  | nil => rfl
  | cons top rest => simp only [completed, if_neg (h top rfl)]

/-- A closing parenthesis releases all that is above its opening one, and the function
    under that. -/
theorem step_closing {held : List Token} {l r : Token} (hl : l.kind = .leftParen)
    (hr : r.kind = .rightParen) (hheld : ∀ t ∈ held, isInside t = true) :
    step (held ++ l :: stack) r = (held ++ (completed stack).1, (completed stack).2) := by
  have hstop : isInside l = false := isInside_eq_false_iff.2 hl
  have htake : (held ++ l :: stack).takeWhile isInside = held := by
    rw [List.takeWhile_append_of_pos hheld, List.takeWhile_cons_of_neg (by simp [hstop]),
      List.append_nil]
  have hdrop : (held ++ l :: stack).dropWhile isInside = l :: stack := by
    rw [List.dropWhile_append_of_pos hheld, List.dropWhile_cons_of_neg (by simp [hstop])]
  rw [step_rightParen _ hr, htake, hdrop, List.tail_cons]

/-! ## Lists, one after the other -/

theorem pending_append (stack xs ys : List Token) :
    pending stack (xs ++ ys) = pending (pending stack xs) ys := by
  simp [pending]

/-- Two lists one after the other send what the first sends, then what the second sends
    from the first's stack. -/
theorem emitted_append (stack xs ys : List Token) :
    emitted stack (xs ++ ys) = emitted stack xs ++ emitted (pending stack xs) ys := by
  induction xs generalizing stack with
  | nil => rfl
  | cons t xs ih => simp [ih]

theorem convert_append (stack xs ys : List Token) :
    convert stack (xs ++ ys) = emitted stack xs ++ convert (pending stack xs) ys := by
  induction xs generalizing stack with
  | nil => rfl
  | cons t xs ih => simp [ih]

/-- The output is what is sent on the way and what is still pending at the end. -/
theorem convert_eq_emitted (stack ts : List Token) :
    convert stack ts = emitted stack ts ++ (pending stack ts).filter isInside := by
  simpa using convert_append stack ts []

end Polish

end Formula
