/-
  Formula.Proofs.Machine.Value

  The run of a postorder is the recursive evaluation of its tree.

    * `answer table name x` — the contained answer of the function that has the name.
    * `meaning table scope` — what tokens mean to an evaluation: a number token its
      number, a variable what the scope has for it, an operator its operation, a
      function its answer.
    * `Outcome.pushed stack v` — the outcome that a value puts on a stack: the stack with
      the value on top, or the failure.

  `Writes.run_postorder` says that the run above any stack pushes the value of the tree
  and touches nothing below; `Writes.from?_postorder` that it is counted as one value.
-/
import Formula.Proofs.Machine.Depth
import Formula.Proofs.Polish.Postorder

namespace Formula

/-- The contained answer of the first function of a name. -/
def Machine.answer (table : List Function) (name : Text) (x : Float) : Except Fault Float :=
  match Function.find? table name with
  | some f => contained (f.value (some x))
  | none => .ok notANumber

/-- What tokens mean to an evaluation. -/
def Machine.meaning (table : List Function) (scope : Scope) : Meaning Token where
  number t := t.value.getD notANumber
  reference t := (scope.lookup? t.name).getD notANumber
  operation o x y := calculate x y o.name
  call f := answer table f.name

/-- The outcome that a value puts on a stack. -/
def Machine.Outcome.pushed (stack : Stack) : Except Fault Float → Machine.Outcome
  | .ok x => .finished (some x :: stack)
  | .error fault => .failed fault

@[simp] theorem Machine.Outcome.answer_pushed (v : Except Fault Float) :
    (Machine.Outcome.pushed [] v).answer = v.map some := by
  cases v <;> rfl

/-- A variable that has a number, or a function that is in the table, or another token. -/
structure Machine.Resolves (table : List Function) (scope : Scope) (t : Token) : Prop where
  bound : t.kind = .reference → (scope.lookup? t.name).isSome = true
  known : t.kind = .function → t.name ∈ Function.names table

open Machine

variable {table : List Function} {scope : Scope} {ts : List Token} {tree : Tree Token}
  {t o f : Token}

/-! ## Single tokens above a stack -/

theorem run_negation (ho : o.operator? = some .negation) (x : Float) (stack : Stack) :
    run table scope [o] (some x :: stack) = .finished (some (negate x) :: stack) := by
  have hstep : step table scope (some x :: stack) o = .leaves (some (negate x) :: stack) := by
    rw [step_operator (Token.kind_of_operator? ho), Token.name_of_operator? ho, operate_negation]
    rfl
  exact run_cons_of_leaves hstep []

theorem run_binary {op : BinaryOperator} (ho : o.operator? = some (.binary op)) (x y : Float)
    (stack : Stack) :
    run table scope [o] (some y :: some x :: stack) =
      .finished (some (calculate x y o.name) :: stack) := by
  have hstep : step table scope (some y :: some x :: stack) o =
      .leaves (some (calculate x y o.name) :: stack) := by
    rw [step_operator (Token.kind_of_operator? ho), Token.name_of_operator? ho, calculate_name,
      operate_binary]
    rfl
  exact run_cons_of_leaves hstep []

theorem run_call (hkind : f.kind = .function) (hknown : f.name ∈ Function.names table) (x : Float)
    (stack : Stack) :
    run table scope [f] (some x :: stack) =
      Outcome.pushed stack ((meaning table scope).call f x) := by
  obtain ⟨g, -, hfind⟩ := exists_find? hknown
  have hcall : (meaning table scope).call f x = contained (g.value (some x)) := by
    simp only [meaning, answer, hfind]
  rw [hcall, run_cons, step_function hkind hfind]
  cases hanswer : contained (g.value (some x)) with
  | ok y =>
    rw [call_of_ok hanswer]
    rfl
  | error fault =>
    rw [call_of_error hanswer]
    rfl

/-! ## Postorders above a stack -/

/-- The run of a postorder pushes the value of the tree. -/
theorem Writes.run_postorder (h : Writes Token.Is ts tree) :
    (∀ t ∈ ts, Resolves table scope t) → ∀ stack : Stack,
      run table scope tree.canonical.postorder stack =
        Outcome.pushed stack (tree.value (meaning table scope)) := by
  induction h with
  | @number n hn =>
    intro _ stack
    obtain ⟨x, hx⟩ := Option.isSome_iff_exists.1 hn.2
    -- The general notation renames a number token and keeps its number.
    have hstep : step table scope stack n.canonical = .leaves (some x :: stack) := by
      rw [step_number (by rw [Token.kind_canonical, hn.1]), Token.value_canonical, hx]
    have hvalue : (meaning table scope).number n = x := by
      simp only [meaning, hx, Option.getD_some]
    rw [Tree.value, hvalue]
    exact run_cons_of_leaves hstep []
  | @reference n hn =>
    intro hresolves stack
    obtain ⟨x, hx⟩ :=
      Option.isSome_iff_exists.1 ((hresolves n (List.mem_singleton_self n)).bound hn)
    have hstep : step table scope stack n = .leaves (some x :: stack) := by
      rw [step_reference hn, refer_of_lookup? hx]
    have hvalue : (meaning table scope).reference n = x := by
      simp only [meaning, hx, Option.getD_some]
    rw [Tree.value, hvalue]
    exact run_cons_of_leaves hstep []
  | @negation xs o t ho _ ih =>
    intro hresolves stack
    have ht := ih (List.forall_mem_cons.1 hresolves).2 stack
    rw [Tree.canonical, Tree.postorder, run_append, ht, Tree.value]
    -- A failure of the operand is the failure of the whole.
    cases t.value (meaning table scope) with
    | ok x => exact run_negation ho x stack
    | error fault => rfl
  | @binary xs ys o t u op _ ho _ iht ihu =>
    intro hresolves stack
    obtain ⟨hleft, hright⟩ := List.forall_mem_append.1 hresolves
    have ht := iht hleft stack
    have hu := ihu (List.forall_mem_cons.1 hright).2
    rw [Tree.canonical, Tree.postorder, run_append, run_append, ht, Tree.value]
    cases t.value (meaning table scope) with
    | error fault => rfl
    | ok x =>
      -- The right operand runs above the left one's value.
      rw [Outcome.pushed, Outcome.andThen, hu (some x :: stack)]
      cases u.value (meaning table scope) with
      | error fault => rfl
      | ok y => exact run_binary ho x y stack
  | @group xs l r t _ _ _ ih =>
    intro hresolves stack
    obtain ⟨-, hrest⟩ := List.forall_mem_cons.1 hresolves
    exact ih (List.forall_mem_append.1 hrest).1 stack
  | @call xs f l r t hf _ _ _ ih =>
    intro hresolves stack
    obtain ⟨hresolvesf, hrest⟩ := List.forall_mem_cons.1 hresolves
    obtain ⟨-, hrest⟩ := List.forall_mem_cons.1 hrest
    have ht := ih (List.forall_mem_append.1 hrest).1 stack
    rw [Tree.canonical, Tree.postorder, run_append, ht, Tree.value]
    cases t.value (meaning table scope) with
    | error fault => rfl
    | ok x => exact run_call hf (hresolvesf.known hf) x stack

/-- The evaluation of a formula in reverse Polish order is the value of its tree. -/
theorem Derives.evaluate_ofTokens (h : Derives Token.Is .sum ts tree)
    (hresolves : ∀ t ∈ ts, Resolves table scope t) :
    evaluate table scope (Polish.ofTokens ts) = (tree.value (meaning table scope)).map some := by
  rw [evaluate, h.ofTokens_eq, h.writes.run_postorder hresolves, Outcome.answer_pushed]

/-! ## Postorders counted -/

/-- An operator token behind as many operands as it takes. -/
theorem Depth.from?_operator {op : Operator} (ho : o.operator? = some op)
    (harity : o.HasTableArity) {depth : Int} (h : op.arity ≤ depth) :
    Depth.from? depth [o] = some (depth - op.arity + 1) := by
  have hkind := Token.kind_of_operator? ho
  obtain ⟨op', hname, hop'⟩ := harity.operator hkind
  -- The name determines the operator, so the arity is that of `op`.
  have hsame : op' = op := by
    have heq := Operator.ofName?_name op'
    rw [← hname, Token.name_of_operator? ho, Operator.ofName?_name] at heq
    exact (Option.some.inj heq).symm
  rw [hsame] at hop'
  simp only [Depth.from?_cons, Depth.step, hkind, hop', if_pos h, Depth.from?_nil,
    Option.bind_some]

/-- A postorder is counted as one value. -/
theorem Writes.from?_postorder (h : Writes Token.Is ts tree) :
    (∀ t ∈ ts, t.HasTableArity) → ∀ depth : Int, 0 ≤ depth →
      Depth.from? depth tree.canonical.postorder = some (depth + 1) := by
  induction h with
  | @number n hn =>
    intro _ depth _
    simp only [Tree.canonical, Tree.postorder, Depth.from?_cons, Depth.step,
      Token.kind_canonical, hn.1, Depth.from?_nil, Option.bind_some]
  | @reference n hn =>
    intro _ depth _
    have hkind : n.kind = .reference := hn
    simp only [Tree.canonical, Tree.postorder, Depth.from?_cons, Depth.step, hkind,
      Depth.from?_nil, Option.bind_some]
  | @negation xs o t ho _ ih =>
    intro harity depth hdepth
    obtain ⟨harityo, harity⟩ := List.forall_mem_cons.1 harity
    -- The operand has left one value above the `depth` ones before it.
    have hone : Operator.negation.arity ≤ depth + 1 := by
      simp only [Operator.arity]
      omega
    rw [Tree.canonical, Tree.postorder, Depth.from?_append, ih harity depth hdepth,
      Option.bind_some, Depth.from?_operator ho harityo hone]
    simp only [Operator.arity]
    congr 1
    omega
  | @binary xs ys o t u op _ ho _ iht ihu =>
    intro harity depth hdepth
    obtain ⟨harityt, harity⟩ := List.forall_mem_append.1 harity
    obtain ⟨harityo, harityu⟩ := List.forall_mem_cons.1 harity
    have htwo : (Operator.binary op).arity ≤ depth + 1 + 1 := by
      simp only [Operator.arity]
      omega
    rw [Tree.canonical, Tree.postorder, Depth.from?_append, Depth.from?_append,
      iht harityt depth hdepth, Option.bind_some, ihu harityu (depth + 1) (by omega),
      Option.bind_some, Depth.from?_operator ho harityo htwo]
    simp only [Operator.arity]
    congr 1
    omega
  | @group xs l r t _ _ _ ih =>
    intro harity depth hdepth
    obtain ⟨-, harity⟩ := List.forall_mem_cons.1 harity
    exact ih (List.forall_mem_append.1 harity).1 depth hdepth
  | @call xs f l r t hf _ _ _ ih =>
    intro harity depth hdepth
    obtain ⟨-, harity⟩ := List.forall_mem_cons.1 harity
    obtain ⟨-, harity⟩ := List.forall_mem_cons.1 harity
    have hkind : f.kind = .function := hf
    have hpos : ¬ depth + 1 < 1 := by omega
    rw [Tree.canonical, Tree.postorder, Depth.from?_append,
      ih (List.forall_mem_append.1 harity).1 depth hdepth, Option.bind_some]
    simp only [Depth.from?_cons, Depth.step, hkind, if_neg hpos, Depth.from?_nil,
      Option.bind_some]

theorem Derives.isComplete_ofTokens (h : Derives Token.Is .sum ts tree)
    (harity : ∀ t ∈ ts, t.HasTableArity) : isComplete (Polish.ofTokens ts) = true := by
  rw [isComplete, depth?, h.ofTokens_eq, h.writes.from?_postorder harity 0 (Int.le_refl 0)]
  rfl

end Formula
