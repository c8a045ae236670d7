/-
  Formula.Proofs.Table.Points

  The number of an expression at a point, in all the ways in which it can be asked for.

    * `Expression.evaluateWith_of_alike` — scopes in which every name has the same number are
      the same to every expression.
    * `Expression.evaluateAlong e name base p` — the number of `e` where `name` is assigned `p` and
      `base` binds all other variables.
    * `Table.Lists table e heading points answer` — `table` is headed by the expression and the
      variable, and has one row for each point, in order, with what `answer` gives for it.
    * `IsFirstFailure answer points fault` — `fault` is what `answer` gives for the first point
      for which it fails.

  The standard variables and the default variable have different plain names, so they may be
  bound in any order. A table is a traversal of its points; before it begins, the list of
  points has to be an array.
-/
import Formula.Proofs.Samples.Shape
import Formula.Proofs.Scope.Assignment
import Formula.Proofs.Traversal
import Formula.Table.Basic

namespace Formula

/-- The number of an expression where one variable is assigned to in a scope. -/
def Expression.evaluateAlong (e : Expression) (name : Text) (base : Scope) (p : Float) :
    Except Fault Float :=
  e.evaluateWith (base.assign (orDefaultVariable name) p)

/-- A table has one row for each point, in order, with the number that is answered for it. -/
structure Table.Lists (table : Table) (e : Expression) (heading : Text) (points : List Float)
    (answer : Float → Except Fault Float) : Prop where
  title_eq : table.title = e.text
  heading_eq : table.heading = heading
  points_eq : table.points = points
  values_eq : List.Forall₂ (fun p y => answer p = .ok y) points table.values

/-- The failure at the first point that fails. -/
def IsFirstFailure (answer : Float → Except Fault Float) (points : List Float) (fault : Fault) :
    Prop :=
  ∃ before p after, points = before ++ p :: after ∧ (∀ q ∈ before, ∃ y, answer q = .ok y) ∧
    answer p = .error fault

variable {e : Expression} {scope scope' base : Scope} {name : Text} {points : List Float}
  {s : Samples} {table : Table} {fault : Fault} {x : Float}

/-! ## Points -/

namespace Expression

/-- An expression sees of a scope only what can be looked up. -/
theorem evaluateWith_of_alike (h : scope.Alike scope') (e : Expression) :
    e.evaluateWith scope = e.evaluateWith scope' := by
  have hrun : Machine.run e.table scope e.rpn [] = Machine.run e.table scope' e.rpn [] :=
    Machine.run_congr (fun t _ stack => Machine.step_congr (.inr (h t.name)) stack) []
  rw [evaluateWith, evaluateWith, Machine.evaluate, Machine.evaluate, hrun]

/-- The standard variables and the default variable are three plain names. -/
theorem pairwise_apart_standard (x : Float) :
    List.Pairwise Binding.Apart (Scope.standard ++ [⟨defaultVariable, x⟩]) := by
  apply Scope.pairwise_apart
  · simp only [Scope.standard, List.cons_append, List.nil_append, List.forall_mem_cons]
    exact ⟨by decide, by decide, by decide, List.forall_mem_nil _⟩
  · show [['p', 'i'], ['e'], defaultVariable].Nodup
    decide

/-- The default variable has no standard number, so its binding is appended. -/
theorem evaluateWith_standard (e : Expression) (x : Float) :
    e.evaluateWith (Scope.standard ++ [⟨defaultVariable, x⟩]) = e.evaluateAt x := rfl

/-- The order of the three bindings does not matter. -/
theorem evaluateWith_of_perm (h : scope.Perm (Scope.standard ++ [⟨defaultVariable, x⟩]))
    (e : Expression) : e.evaluateWith scope = e.evaluateAt x := by
  rw [← evaluateWith_standard]
  apply evaluateWith_of_alike
  exact Scope.lookup?_perm h ((pairwise_apart_standard x).perm h.symm fun hapart => hapart.symm)

end Expression

/-! ## Tables -/

theorem tabulate_eq_ok_iff :
    tabulate e points name base = .ok table ↔
      table.Lists e (orDefaultVariable name) points (e.evaluateAlong name base) := by
  rw [tabulate, map_eq_ok_iff]
  simp only [mapM_eq_ok_iff]
  constructor
  · rintro ⟨values, hvalues, rfl⟩
    exact ⟨rfl, rfl, rfl, hvalues⟩
  · intro h
    obtain ⟨title, heading, points', values⟩ := table
    obtain ⟨rfl, rfl, rfl, hvalues⟩ := h
    exact ⟨values, hvalues, rfl⟩

theorem tabulate_eq_error_iff :
    tabulate e points name base = .error fault ↔
      IsFirstFailure (e.evaluateAlong name base) points fault := by
  rw [tabulate, map_eq_error_iff, mapM_eq_error_iff]
  rfl

theorem tabulateSamples_of_isArray (h : s.IsArray) (e : Expression) (name : Text)
    (base : Scope) : tabulateSamples e s name base = tabulate e s.flatten name base := by
  rw [tabulateSamples, Samples.numbers?_of_isArray h]
  rfl

/-- What is no array is refused before any evaluation. -/
theorem tabulateSamples_of_not_isArray (h : ¬ s.IsArray) (e : Expression) (name : Text)
    (base : Scope) :
    ∃ fault, tabulateSamples e s name base = .error fault ∧ fault.category = .value := by
  obtain ⟨fault, hfault, hcategory⟩ := Samples.numbers?_of_not_isArray h
  refine ⟨fault, ?_, hcategory⟩
  rw [tabulateSamples, hfault]
  rfl

/-! ## All ways to ask -/

/-- All ways to evaluate at a point agree. For every expression:

    the number at a point is the one in the standard scope with the default variable bound
    behind it, and in the scope of any mapping that holds these three bindings, in whatever
    order they were inserted;

    a table over an array of points lists the number at each of them, from left to right,
    with the variable assigned to in the base scope, and where a point fails, the table fails
    as the first such point does; without a name and a base scope of its own, it lists the
    numbers at the points;

    a table over a list that is no array, one whose parts side by side have different sizes or
    that has too many levels, fails whatever the expression. -/
theorem evaluations_agree (e : Expression) :
    (∀ x : Float,
      e.evaluate (.number x) = e.evaluateAt x ∧
      e.evaluateWith (Scope.standard ++ [⟨defaultVariable, x⟩]) = e.evaluateAt x ∧
      ∀ entries : List Binding,
        (Scope.ofEntries entries).Perm (Scope.standard ++ [⟨defaultVariable, x⟩]) →
          e.evaluateWith (Scope.ofEntries entries) = e.evaluateAt x) ∧
    (∀ (s : Samples) (name : Text) (base : Scope), s.IsArray →
      (∀ table, tabulateSamples e s name base = .ok table ↔
        table.Lists e (orDefaultVariable name) s.flatten (e.evaluateAlong name base)) ∧
      ∀ fault, tabulateSamples e s name base = .error fault ↔
        IsFirstFailure (e.evaluateAlong name base) s.flatten fault) ∧
    (∀ (name : Text) (p : Float), orDefaultVariable name = defaultVariable →
      e.evaluateAlong name Scope.standard p = e.evaluate (.number p)) ∧
    ∀ (s : Samples) (name : Text) (base : Scope), ¬ s.IsArray →
      ∃ fault, tabulateSamples e s name base = .error fault ∧ fault.category = .value := by
  refine ⟨fun x => ⟨rfl, Expression.evaluateWith_standard e x,
    fun entries h => Expression.evaluateWith_of_perm h e⟩, ?_, ?_,
    fun s name base h => tabulateSamples_of_not_isArray h e name base⟩
  · intro s name base h
    rw [tabulateSamples_of_isArray h]
    exact ⟨fun table => tabulate_eq_ok_iff, fun fault => tabulate_eq_error_iff⟩
  · intro name p h
    rw [Expression.evaluateAlong, h]
    rfl

/-- The number of `x*pi` at `2` is that in the scope of a mapping which holds the three bindings
    in another order, and a table over a nested list has a row for each of its numbers. -/
theorem evaluations_agree_nested :
    ∃ e, Expression.ofText? Function.standard .dropped "x*pi".toList = .ok e ∧
      e.evaluateWith (Scope.ofEntries [⟨['x'], 2.0⟩, ⟨['e'], 2.718281828⟩,
        ⟨['p', 'i'], 3.141592654⟩]) = e.evaluateAt 2.0 ∧
      ∃ table, tabulateSamples e (.many [.many [.one 1.0, .one 2.0], .many [.one 3.0, .one 4.0]])
        [] Scope.standard = .ok table ∧ table.points = [1.0, 2.0, 3.0, 4.0] := by
  let tokens : List Token :=
    [.reference ['x'], .ofOperator (.binary .multiply), .reference ['p', 'i']]
  let e : Expression := ⟨Function.standard, "x*pi".toList, tokens, rfl⟩
  obtain ⟨hpoints, htables, -, -⟩ := evaluations_agree e
  refine ⟨e, Expression.ofText?_eq_ok_iff.2 ⟨rfl, by decide⟩, ?_, ?_⟩
  · apply (hpoints 2.0).2.2
    exact List.reverse_perm (Scope.standard ++ [⟨['x'], 2.0⟩])
  · have hlists : Table.Lists ⟨e.text, ['x'], [1.0, 2.0, 3.0, 4.0],
        [1.0, 2.0, 3.0, 4.0].map fun p => p * 3.141592654⟩ e ['x'] [1.0, 2.0, 3.0, 4.0]
        (e.evaluateAlong [] Scope.standard) :=
      ⟨rfl, rfl, rfl, .cons rfl (.cons rfl (.cons rfl (.cons rfl .nil)))⟩
    exact ⟨_, ((htables _ _ _ (by decide)).1 _).2 hlists, rfl⟩

/-- A table over `[[1, 2], [3]]` fails, although the variable by itself has a number at each of
    the three points; and so does one over a number under 65 brackets. -/
theorem tabulateSamples_ragged :
    ∃ e, Expression.ofText? Function.standard .dropped ['x'] = .ok e ∧
      (∀ p, e.evaluateAlong [] Scope.standard p = .ok p) ∧
      (Samples.many [.many [.one 1.0, .one 2.0], .many [.one 3.0]]).flatten = [1.0, 2.0, 3.0] ∧
      tabulateSamples e (.many [.many [.one 1.0, .one 2.0], .many [.one 3.0]]) []
        Scope.standard = .error (.irregular [2]) ∧
      tabulateSamples e (Nat.repeat (fun s => .many [s]) 65 (.one 1.0)) [] Scope.standard =
        .error (.tooDeep 64) := by
  let e : Expression := ⟨Function.standard, ['x'], [.reference ['x']], rfl⟩
  refine ⟨e, Expression.ofText?_eq_ok_iff.2 ⟨rfl, by decide⟩, fun p => rfl, rfl, rfl, ?_⟩
  have hdeep := (Samples.hasShape_repeat 1.0 65).numbers?_of_lt (by decide)
  rw [tabulateSamples, hdeep]
  rfl

end Formula
