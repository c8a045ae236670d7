/-
  Formula.Proofs.Machine.Opposite

  A variable that is named by an opposite and the variable with a negation behind it.

    * `Unfolds scope xs ys` — `ys` is `xs` with some of its variables `~n`, where `scope` binds
      `n`, written as `n` and a negation.
    * `Scope.NegatesOpposites scope` — the opposite of a bound name has the opposite number.

  The two spellings take different ways through the machine: the first is looked up by the
  second kind of answer that a binding gives, the other by the first kind, and then the
  operator has to find its operand. `negatesOpposites_iff` says that lists may be unfolded in
  a scope exactly if it negates opposites. That can fail, since a binding of `~n` may stand
  before that of `n`; `lookup?_of_binds` says that it holds where all names are plain.
-/
import Formula.Machine
import Formula.Proofs.Scope.Assignment

namespace Formula

/-- Token lists of which the second has some variables of the first, each the opposite of a
    bound one, written as that variable and a negation. -/
inductive Unfolds (scope : Scope) : List Token → List Token → Prop
  | nil : Unfolds scope [] []
  | kept (t : Token) {xs ys : List Token} (h : Unfolds scope xs ys) :
      Unfolds scope (t :: xs) (t :: ys)
  | opposite {n : Text} {t u o : Token} {xs ys : List Token} (hn : scope.binds n = true)
      (ht : t.kind = .reference ∧ t.name = negated n)
      (hu : u.kind = .reference ∧ u.name = n)
      (ho : o.kind = .operator ∧ o.name = Operator.negation.name) (h : Unfolds scope xs ys) :
      Unfolds scope (t :: xs) (u :: o :: ys)

/-- The opposite of a bound name has the opposite of its number. -/
def Scope.NegatesOpposites (scope : Scope) : Prop :=
  ∀ n, scope.binds n = true → scope.lookup? (negated n) = (scope.lookup? n).map negate

variable {table : List Function} {scope : Scope} {n : Text} {t u o : Token} {xs ys : List Token}
  {x : Float}

/-! ## Looking up -/

namespace Scope

/-- An opposite has the opposite of the number of the first binding of the name, if nothing is
    bound that is named like the opposite itself. -/
theorem lookup?_negated (h : ∀ b ∈ scope, b.name ≠ negated n) :
    scope.lookup? (negated n) =
      (scope.find? fun b => b.name = n).map fun b => negate b.value := by
  induction scope with
  | nil => rfl
  | cons b scope ih =>
    obtain ⟨hb, hscope⟩ := List.forall_mem_cons.1 h
    rw [lookup?_cons, ih hscope]
    by_cases hname : b.name = n
    · subst hname
      rw [answer?_negated, List.find?_cons_of_pos (by simp)]
      rfl
    · have hnone : answer? (negated n) b = none :=
        answer?_eq_none hb fun heq => hname (negated_injective heq)
      rw [hnone, List.find?_cons_of_neg (by simpa using hname), Option.none_or]

/-- Where all names are plain, the first binding of a name counts for the name and for its
    opposite. -/
theorem lookup?_of_binds (hplain : ∀ b ∈ scope, IsPlain b.name) (hn : scope.binds n = true) :
    ∃ b, (scope.find? fun b => b.name = n) = some b ∧ scope.lookup? n = some b.value ∧
      scope.lookup? (negated n) = some (negate b.value) := by
  obtain ⟨c, hc, rfl⟩ := List.mem_map.1 (binds_eq_true_iff.1 hn)
  have hfound : (scope.find? fun b => b.name = c.name).isSome = true :=
    List.find?_isSome.2 ⟨c, hc, by simp⟩
  obtain ⟨b, hb⟩ := Option.isSome_iff_exists.1 hfound
  refine ⟨b, hb, ?_, ?_⟩
  · rw [lookup?_eq_find? scope (hplain c hc).ne_negated, hb]
    rfl
  · rw [lookup?_negated fun b hb => (hplain b hb).ne_negated c.name, hb]
    rfl

theorem negatesOpposites_of_isPlain (hplain : ∀ b ∈ scope, IsPlain b.name) :
    scope.NegatesOpposites := by
  intro n hn
  obtain ⟨b, -, hname, hnegated⟩ := lookup?_of_binds hplain hn
  rw [hname, hnegated]
  rfl

/-- A bound name and its opposite have numbers, whatever stands before the binding. -/
theorem exists_lookup?_of_binds (hn : scope.binds n = true) :
    (∃ x, scope.lookup? n = some x) ∧ ∃ y, scope.lookup? (negated n) = some y := by
  obtain ⟨b, hb, rfl⟩ := List.mem_map.1 (binds_eq_true_iff.1 hn)
  constructor
  · apply Option.ne_none_iff_exists'.1
    intro hnone
    exact (lookup?_eq_none_iff.1 hnone b hb).1 rfl
  · apply Option.ne_none_iff_exists'.1
    intro hnone
    exact (lookup?_eq_none_iff.1 hnone b hb).2 rfl

end Scope

/-! ## Running -/

namespace Machine

/-- A variable leaves its number on top. -/
theorem run_cons_of_lookup? (ht : t.kind = .reference) (hx : scope.lookup? t.name = some x)
    (ts : List Token) (stack : Stack) :
    run table scope (t :: ts) stack = run table scope ts (some x :: stack) := by
  apply run_cons_of_leaves
  rw [step_reference ht]
  exact refer_of_lookup? hx stack

/-- A variable with a negation behind it leaves the opposite number on top: the negation has
    just been given its operand. -/
theorem run_negated (hu : u.kind = .reference) (hx : scope.lookup? u.name = some x)
    (ho : o.kind = .operator) (hname : o.name = Operator.negation.name) (ts : List Token)
    (stack : Stack) :
    run table scope (u :: o :: ts) stack = run table scope ts (some (negate x) :: stack) := by
  rw [run_cons_of_lookup? hu hx]
  apply run_cons_of_leaves
  rw [step_operator ho, hname, operate_negation]
  rfl

/-- Unfolding leaves every run as it is, from any stack. -/
theorem run_of_unfolds (hscope : scope.NegatesOpposites) (h : Unfolds scope xs ys)
    (stack : Stack) : run table scope xs stack = run table scope ys stack := by
  induction h generalizing stack with
  | nil => rfl
  | kept t _ ih =>
    rw [run_cons, run_cons]
    cases (step table scope stack t).outcome stack with
    | finished next => exact ih next
    | ended => rfl
    | failed fault => rfl
  | @opposite n t u o xs ys hn ht hu ho _ ih =>
    obtain ⟨⟨x, hx⟩, -⟩ := Scope.exists_lookup?_of_binds hn
    have hnegated : scope.lookup? t.name = some (negate x) := by
      rw [ht.2, hscope n hn, hx]
      rfl
    rw [run_cons_of_lookup? ht.1 hnegated, run_negated hu.1 (hu.2.symm ▸ hx) ho.1 ho.2]
    exact ih (some (negate x) :: stack)

/-- Lists may be unfolded in a scope exactly if it negates opposites. -/
theorem negatesOpposites_iff :
    scope.NegatesOpposites ↔ ∀ (table : List Function) (xs ys : List Token),
      Unfolds scope xs ys → evaluate table scope xs = evaluate table scope ys := by
  constructor
  · intro hscope table xs ys h
    rw [evaluate, evaluate, run_of_unfolds hscope h]
  · -- The opposite by itself and its unfolding have the two numbers in question.
    intro h n hn
    obtain ⟨⟨x, hx⟩, y, hy⟩ := Scope.exists_lookup?_of_binds hn
    have hunfolds : Unfolds scope [.reference (negated n)]
        [.reference n, .ofOperator .negation] :=
      .opposite hn ⟨rfl, rfl⟩ ⟨rfl, rfl⟩ ⟨rfl, rfl⟩ .nil
    have hequal := h [] _ _ hunfolds
    rw [evaluate, evaluate, run_cons_of_lookup? rfl hy, run_negated rfl hx rfl rfl] at hequal
    have hopposite : y = negate x := Option.some.inj (Except.ok.inj hequal)
    rw [hx, hy, hopposite]
    rfl

/-- In a scope in which no name begins with the mark of an opposite, `~n` may be written as `n`
    with a negation behind it, at any set of places of any token list, for every bound name
    `n` and whatever the functions of the table. The answer of the evaluation is the same, its
    failure included, and so is every run from every stack. Both spellings take their number
    from the first binding of `n`. -/
theorem evaluate_of_unfolds (hplain : ∀ b ∈ scope, IsPlain b.name) :
    (∀ (table : List Function) (xs ys : List Token), Unfolds scope xs ys →
      evaluate table scope xs = evaluate table scope ys ∧
        ∀ stack, run table scope xs stack = run table scope ys stack) ∧
    ∀ n, scope.binds n = true →
      ∃ b, (scope.find? fun b => b.name = n) = some b ∧ scope.lookup? n = some b.value ∧
        scope.lookup? (negated n) = some (negate b.value) := by
  have hscope : scope.NegatesOpposites := Scope.negatesOpposites_of_isPlain hplain
  refine ⟨fun table xs ys h => ⟨?_, run_of_unfolds hscope h⟩, fun n hn =>
    Scope.lookup?_of_binds hplain hn⟩
  exact negatesOpposites_iff.1 hscope table xs ys h

open Token in
/-- In `~x + ~x *` the first `~x` may be written as `x ~`, although the addition is skipped, and
    the second of two bindings of `x` counts for neither. -/
theorem evaluate_of_unfolds_skipped_operator :
    evaluate Function.standard [⟨['x'], 3.0⟩, ⟨['x'], 7.0⟩]
        [reference ['~', 'x'], ofOperator (.binary .add), reference ['~', 'x'],
          ofOperator (.binary .multiply)] =
      evaluate Function.standard [⟨['x'], 3.0⟩, ⟨['x'], 7.0⟩]
        [reference ['x'], ofOperator .negation, ofOperator (.binary .add),
          reference ['~', 'x'], ofOperator (.binary .multiply)] := by
  have hplain : ∀ b ∈ ([⟨['x'], 3.0⟩, ⟨['x'], 7.0⟩] : Scope), IsPlain b.name :=
    List.forall_mem_cons.2 ⟨by decide, List.forall_mem_singleton.2 (by decide)⟩
  have hunfolds : Unfolds [⟨['x'], 3.0⟩, ⟨['x'], 7.0⟩]
      [reference ['~', 'x'], ofOperator (.binary .add), reference ['~', 'x'],
        ofOperator (.binary .multiply)]
      [reference ['x'], ofOperator .negation, ofOperator (.binary .add),
        reference ['~', 'x'], ofOperator (.binary .multiply)] :=
    .opposite (n := ['x']) rfl ⟨rfl, rfl⟩ ⟨rfl, rfl⟩ ⟨rfl, rfl⟩ (.kept _ (.kept _ (.kept _ .nil)))
  exact ((evaluate_of_unfolds hplain).1 Function.standard _ _ hunfolds).1

end Machine

end Formula
