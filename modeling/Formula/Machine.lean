/-
  Formula.Machine

  The evaluation of a formula in reverse Polish order on a stack of numbers, the
  most recent one first.

    * `Stack` — the values of an evaluation. A number token of a caller need not carry
      a number, and then leaves a missing one.
    * `Effect` — what one token does to a stack: it leaves a stack, it is skipped for
      want of operands, it ends the evaluation, or it fails.
    * `step table scope stack t` — the effect of `t`.
    * `run table scope ts stack` — the outcome of a token list from a stack: a final
      stack, an early end or a failure.
    * `evaluate table scope ts` — the value that is left if exactly one is; no
      number if more or fewer are left or the evaluation ended early.

  A function that finds no operand ends the evaluation, an operator that finds too
  few is skipped, and one that takes a missing number fails. A failure of a function
  becomes no number if it is arithmetic, and leaves the evaluation otherwise. All
  tokens other than numbers, operators and functions of the table are looked up as
  variables by their name; an unknown name has no effect.
-/
import Formula.Function.Basic
import Formula.Scope
import Formula.Token.Basic

namespace Formula

namespace Machine

/-- The values of an evaluation, the most recent one first; a missing number is a value. -/
abbrev Stack := List (Option Float)

/-- What one token does to a stack. -/
inductive Effect where
  | leaves (stack : Stack)
  | skipped
  | ended
  | failed (fault : Fault)

inductive Outcome where
  | finished (stack : Stack)
  | ended
  | failed (fault : Fault)

/-- The effect of the answer of an operation: it is put on top of a stack, if it is a number. -/
def Effect.push (stack : Stack) : Except Fault Float → Effect
  | .ok x => .leaves (some x :: stack)
  | .error fault => .failed fault

/-- The answer of a function in an evaluation: arithmetic failures become no number. -/
def contained (answer : Except Fault Float) : Except Fault Float :=
  match answer with
  | .ok x => .ok x
  | .error fault => if fault.isContained then .ok notANumber else .error fault

def call (f : Function) : Stack → Effect
  | [] => .ended
  | x :: stack => .push stack (contained (f.value x))

/-- A binary operation on two values. The left operand is the first that may be missing. -/
def combine (op : BinaryOperator) : Option Float → Option Float → Except Fault Float
  | some a, some b => .ok (op.apply a b)
  | some _, none => .error (.missingOperand op.title (some 1))
  | none, _ => .error (.missingOperand op.title (some 0))

def opposite : Option Float → Except Fault Float
  | some x => .ok (negate x)
  | none => .error .missingOpposite

def operate (name : Text) (stack : Stack) : Effect :=
  match Operator.ofName? name, stack with
  | some (.binary op), b :: a :: rest => .push rest (combine op a b)
  | some .negation, x :: rest => .push rest (opposite x)
  | _, _ => .skipped

def refer (scope : Scope) (name : Text) (stack : Stack) : Effect :=
  match scope.lookup? name with
  | some x => .leaves (some x :: stack)
  | none => .leaves stack

def step (table : List Function) (scope : Scope) (stack : Stack) (t : Token) : Effect :=
  match t.kind with
  | .number => .leaves (t.value :: stack)
  | .operator => operate t.name stack
  | .function =>
    match Function.find? table t.name with
    | some f => call f stack
    | none => refer scope t.name stack
  | .reference | .leftParen | .rightParen => refer scope t.name stack

def run (table : List Function) (scope : Scope) : List Token → Stack → Outcome
  | [], stack => .finished stack
  | t :: ts, stack =>
    match step table scope stack t with
    | .leaves stack => run table scope ts stack
    | .skipped => run table scope ts stack
    | .ended => .ended
    | .failed fault => .failed fault

/-- The outcome of going on with more tokens: a final stack is gone on from, an early
    end and a failure stay as they are. -/
def Outcome.andThen (o : Outcome) (next : Stack → Outcome) : Outcome :=
  match o with
  | finished stack => next stack
  | ended => ended
  | failed fault => failed fault

/-- The outcome of one token, which leaves the stack as it is where it is skipped. -/
def Effect.outcome (stack : Stack) : Effect → Outcome
  | leaves next => .finished next
  | skipped => .finished stack
  | ended => .ended
  | failed fault => .failed fault

/-- The answer that an outcome stands for: the value that is left alone, be it missing. -/
def Outcome.answer : Outcome → Except Fault (Option Float)
  | finished [x] => .ok x
  | finished _ => .ok (some notANumber)
  | ended => .ok (some notANumber)
  | failed fault => .error fault

/-- The value that a token list in reverse Polish order stands for. -/
def evaluate (table : List Function) (scope : Scope) (ts : List Token) :
    Except Fault (Option Float) :=
  (run table scope ts []).answer

/-! ## Lists of tokens -/

variable {table : List Function} {scope : Scope}

@[simp] theorem run_nil (stack : Stack) : run table scope [] stack = .finished stack := rfl

/-- A token that leaves a stack is followed by the rest of the list from that stack. -/
theorem run_cons_of_leaves {t : Token} {stack next : Stack}
    (h : step table scope stack t = .leaves next) (ts : List Token) :
    run table scope (t :: ts) stack = run table scope ts next := by
  simp [run, h]

/-- A token list runs its first token and goes on with the rest. -/
theorem run_cons (t : Token) (ts : List Token) (stack : Stack) :
    run table scope (t :: ts) stack =
      ((step table scope stack t).outcome stack).andThen (run table scope ts) := by
  rw [run]
  cases step table scope stack t <;> rfl

theorem run_append (xs ys : List Token) (stack : Stack) :
    run table scope (xs ++ ys) stack =
      (run table scope xs stack).andThen (run table scope ys) := by
  induction xs generalizing stack with
  | nil => rfl
  | cons t xs ih =>
    rw [List.cons_append, run, run]
    split
    · exact ih _
    · exact ih _
    · rfl
    · rfl

/-! ## Single tokens -/

variable {t : Token}

theorem step_number (h : t.kind = .number) (stack : Stack) :
    step table scope stack t = .leaves (t.value :: stack) := by
  simp only [step, h]

theorem step_reference (h : t.kind = .reference) (stack : Stack) :
    step table scope stack t = refer scope t.name stack := by
  simp only [step, h]

theorem step_operator (h : t.kind = .operator) (stack : Stack) :
    step table scope stack t = operate t.name stack := by
  simp only [step, h]

theorem step_function {f : Function} (h : t.kind = .function)
    (hf : Function.find? table t.name = some f) (stack : Stack) :
    step table scope stack t = call f stack := by
  simp only [step, h, hf]

theorem refer_of_lookup? {name : Text} {x : Float} (h : scope.lookup? name = some x)
    (stack : Stack) : refer scope name stack = .leaves (some x :: stack) := by
  simp only [refer, h]

theorem refer_of_lookup?_none {name : Text} (h : scope.lookup? name = none)
    (stack : Stack) : refer scope name stack = .leaves stack := by
  simp only [refer, h]

theorem operate_negation (x : Option Float) (stack : Stack) :
    operate Operator.negation.name (x :: stack) = .push stack (opposite x) := rfl

theorem operate_binary (op : BinaryOperator) (a b : Option Float) (stack : Stack) :
    operate (Operator.binary op).name (b :: a :: stack) = .push stack (combine op a b) := by
  cases op <;> rfl

/-- An operator is skipped where it finds fewer values than it takes. -/
theorem operate_of_length_lt {op : Operator} {stack : Stack}
    (h : (stack.length : Int) < op.arity) : operate op.name stack = .skipped := by
  unfold operate
  rw [Operator.ofName?_name]
  cases op with
  | negation =>
    cases stack with
    | nil => rfl
    | cons x stack =>
      simp only [List.length_cons, Operator.arity] at h
      omega
  | binary b =>
    match stack, h with
    | [], _ => rfl
    | [x], _ => rfl
    | y :: x :: stack, h =>
      simp only [List.length_cons, Operator.arity] at h
      omega

/-! ## Tables and scopes -/

/-- A token means the same in two scopes that have the same number for its name. -/
theorem step_congr {scope' : Scope}
    (h : t.kind = .number ∨ scope.lookup? t.name = scope'.lookup? t.name) (stack : Stack) :
    step table scope stack t = step table scope' stack t := by
  rcases h with hkind | hlookup
  · rw [step_number hkind, step_number hkind]
  · have hrefer : refer scope t.name stack = refer scope' t.name stack := by
      rw [refer, refer, hlookup]
    simp only [step, hrefer]

/-- Two runs from one stack are the same if every token has the same effect in both. -/
theorem run_congr {table' : List Function} {scope' : Scope} {ts : List Token}
    (h : ∀ t ∈ ts, ∀ stack, step table scope stack t = step table' scope' stack t)
    (stack : Stack) : run table scope ts stack = run table' scope' ts stack := by
  induction ts generalizing stack with
  | nil => rfl
  | cons t ts ih =>
    obtain ⟨ht, hts⟩ := List.forall_mem_cons.1 h
    rw [run_cons, run_cons, ht stack]
    -- Both go on from the same stack, or neither goes on.
    cases (step table' scope' stack t).outcome stack with
    | finished next => exact ih hts next
    | ended => rfl
    | failed fault => rfl

/-! ## Calls -/

theorem contained_error {fault : Fault} (h : fault.isContained = true) :
    contained (.error fault) = .ok notANumber :=
  if_pos h

theorem call_of_ok {f : Function} {x : Option Float} {y : Float}
    (h : contained (f.value x) = .ok y) (stack : Stack) :
    call f (x :: stack) = .leaves (some y :: stack) := by
  rw [call, h]
  rfl

theorem call_of_error {f : Function} {x : Option Float} {fault : Fault}
    (h : contained (f.value x) = .error fault) (stack : Stack) :
    call f (x :: stack) = .failed fault := by
  rw [call, h]
  rfl

end Machine

end Formula
