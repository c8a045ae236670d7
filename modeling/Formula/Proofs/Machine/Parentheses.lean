/-
  Formula.Proofs.Machine.Parentheses

  Parentheses that are left in a list in reverse Polish order.

    * `withoutParentheses ts` — `ts` with its parentheses deleted.
    * `Scope.IsSilentOn scope names` — no binding of `scope` answers for one of `names`, be it a
      binding of that name or of the name that it is the opposite of.

  The machine looks a parenthesis up by its name as if it were a variable, so it leaves no
  trace only in a scope that is silent on its name (`run_withoutParentheses`). The count of
  values that is made without running skips parentheses in any case, so run and count of
  a list with parentheses agree in silent scopes only.
-/
import Formula.Proofs.Machine.Depth
import Formula.Proofs.Polish.Order

namespace Formula

/-- A token list with its parentheses deleted. -/
def withoutParentheses (ts : List Token) : List Token :=
  ts.filter fun t => !t.isParenthesis

/-- No binding of a scope answers for one of some names. -/
def Scope.IsSilentOn (scope : Scope) (names : List Text) : Prop :=
  ∀ b ∈ scope, b.name ∉ names ∧ negated b.name ∉ names

variable {table : List Function} {scope : Scope} {names : List Text} {ts : List Token} {t : Token}

theorem Scope.IsSilentOn.lookup?_eq_none {name : Text} (h : scope.IsSilentOn names)
    (hname : name ∈ names) : scope.lookup? name = none := by
  rw [lookup?_eq_none_iff]
  intro b hb
  obtain ⟨hexact, hopposite⟩ := h b hb
  constructor
  · rintro rfl
    exact hexact hname
  · rintro rfl
    exact hopposite hname

/-- Silence on the names of the parentheses is that no variable is named by one of them: the
    name of an opposite begins with a sign. -/
theorem Scope.isSilentOn_parentheses :
    scope.IsSilentOn [['('], [')']] ↔ ∀ b ∈ scope, b.name ≠ ['('] ∧ b.name ≠ [')'] := by
  simp [IsSilentOn, negated]

@[simp] theorem withoutParentheses_nil : withoutParentheses [] = [] := rfl

theorem withoutParentheses_cons_of_pos (h : t.isParenthesis = true) (ts : List Token) :
    withoutParentheses (t :: ts) = withoutParentheses ts :=
  List.filter_cons_of_neg (by simp [h])

theorem withoutParentheses_cons_of_neg (h : t.isParenthesis = false) (ts : List Token) :
    withoutParentheses (t :: ts) = t :: withoutParentheses ts :=
  List.filter_cons_of_pos (by simp [h])

theorem Token.kind_of_isParenthesis (h : t.isParenthesis = true) :
    t.kind = .leftParen ∨ t.kind = .rightParen := by
  simpa [isParenthesis] using h

/-! ## Counting -/

/-- A parenthesis leaves the count as it is. -/
theorem Depth.step_parenthesis (h : t.isParenthesis = true) (depth : Int) :
    Depth.step depth t = some depth := by
  rcases Token.kind_of_isParenthesis h with hkind | hkind
  · simp only [Depth.step, hkind]
  · simp only [Depth.step, hkind]

/-- Parentheses are not counted. -/
theorem Depth.from?_withoutParentheses (depth : Int) (ts : List Token) :
    Depth.from? depth (withoutParentheses ts) = Depth.from? depth ts := by
  induction ts generalizing depth with
  | nil => rfl
  | cons t ts ih =>
    cases ht : t.isParenthesis with
    | true =>
      rw [withoutParentheses_cons_of_pos ht, ih, Depth.from?_cons, Depth.step_parenthesis ht]
      rfl
    | false =>
      rw [withoutParentheses_cons_of_neg ht, Depth.from?_cons, Depth.from?_cons]
      cases Depth.step depth t with
      | none => rfl
      | some d => exact ih d

namespace Machine

/-! ## Running -/

/-- A parenthesis is looked up by its name. -/
theorem step_parenthesis (h : t.isParenthesis = true) (stack : Stack) :
    step table scope stack t = refer scope t.name stack := by
  rcases Token.kind_of_isParenthesis h with hkind | hkind
  · simp only [step, hkind]
  · simp only [step, hkind]

/-- Parentheses leave no trace in a run if the scope is silent on their names. -/
theorem run_withoutParentheses (hsilent : scope.IsSilentOn names)
    (hnames : ∀ t ∈ ts, t.isParenthesis = true → t.name ∈ names) (stack : Stack) :
    run table scope (withoutParentheses ts) stack = run table scope ts stack := by
  induction ts generalizing stack with
  | nil => rfl
  | cons t ts ih =>
    obtain ⟨hname, hnames⟩ := List.forall_mem_cons.1 hnames
    cases ht : t.isParenthesis with
    | true =>
      have hnone : scope.lookup? t.name = none := hsilent.lookup?_eq_none (hname ht)
      have hstep : step table scope stack t = .leaves stack := by
        rw [step_parenthesis ht, refer_of_lookup?_none hnone]
      rw [withoutParentheses_cons_of_pos ht, run_cons_of_leaves hstep]
      exact ih hnames stack
    | false =>
      rw [withoutParentheses_cons_of_neg ht, run_cons, run_cons]
      -- The token itself decides on both sides whether there is a stack to go on from.
      cases (step table scope stack t).outcome stack with
      | finished next => exact ih hnames next
      | ended => rfl
      | failed fault => rfl

/-- In a silent scope run and count agree also on lists with parentheses. -/
theorem depth?_run_withoutParentheses (hsilent : scope.IsSilentOn names)
    (hnames : ∀ t ∈ ts, t.isParenthesis = true → t.name ∈ names)
    (hcounted : ∀ t ∈ withoutParentheses ts, IsCounted table t) :
    AtMost (run table scope ts []).depth? (depth? ts) ∧
      ((∀ t ∈ ts, t.kind = .reference → (scope.lookup? t.name).isSome = true) →
        (run table scope ts []).depth? = depth? ts) := by
  have hcount : depth? ts = Depth.from? ([] : Stack).length (withoutParentheses ts) :=
    (Depth.from?_withoutParentheses 0 ts).symm
  rw [← run_withoutParentheses hsilent hnames, hcount]
  constructor
  · exact atMost_depth?_run hcounted present_nil (Int.le_refl _)
  · intro hbound
    have hbound' : ∀ t ∈ withoutParentheses ts, t.kind = .reference →
        (scope.lookup? t.name).isSome = true :=
      fun t ht => hbound t (List.mem_of_mem_filter ht)
    exact depth?_run hcounted hbound' present_nil

/-- A parenthesis that has a number pushes it, so that one number before it is not left
    alone. -/
theorem evaluate_number_parenthesis {x : Float} (ht : t.isParenthesis = true)
    (hx : scope.lookup? t.name = some x) (name : Text) (y : Float) :
    evaluate table scope [.number name y, t] = .ok (some notANumber) := by
  have hnumber : step table scope [] (.number name y) = .leaves [some y] := step_number rfl []
  have hparenthesis : step table scope [some y] t = .leaves [some x, some y] := by
    rw [step_parenthesis ht, refer_of_lookup? hx]
  rw [evaluate, run_cons_of_leaves hnumber, run_cons_of_leaves hparenthesis]
  rfl

/-- A scope in which parentheses of some names never matter is silent on these names. -/
theorem isSilentOn_of_evaluate_eq
    (h : ∀ ts : List Token, (∀ t ∈ ts, t.isParenthesis = true → t.name ∈ names) →
      evaluate table scope (withoutParentheses ts) = evaluate table scope ts) :
    scope.IsSilentOn names := by
  -- A parenthesis of a name behind the number one: without it the answer is one.
  have hnone : ∀ name ∈ names, scope.lookup? name = none := by
    intro name hname
    cases hlookup : scope.lookup? name with
    | none => rfl
    | some x =>
      let l : Token := { kind := .leftParen, name }
      have hnames : ∀ t ∈ [Token.number ['1'] 1.0, l], t.isParenthesis = true → t.name ∈ names :=
        List.forall_mem_cons.2 ⟨nofun, List.forall_mem_singleton.2 fun _ => hname⟩
      have hl : l.isParenthesis = true := rfl
      have hone : (1.0 : Float) = notANumber := by
        have hequal := h _ hnames
        rw [evaluate_number_parenthesis hl hlookup] at hequal
        exact Option.some.inj (Except.ok.inj hequal)
      exact absurd hone (by decide)
  intro b hb
  constructor
  · intro hmem
    exact (Scope.lookup?_eq_none_iff.1 (hnone _ hmem) b hb).1 rfl
  · intro hmem
    exact (Scope.lookup?_eq_none_iff.1 (hnone _ hmem) b hb).2 rfl

/-- Parentheses of certain names can be deleted from every list, whatever the functions, with
    no effect on the outcome of an evaluation exactly if no binding of the scope answers for
    one of these names. Then the values that a run leaves are at most as many as are counted,
    and just as many if every variable has a number, for lists whose other tokens are counted
    rightly. Parentheses do not change the count in any scope. -/
theorem evaluate_withoutParentheses_iff (scope : Scope) (names : List Text) :
    ((∀ (table : List Function) (ts : List Token),
        (∀ t ∈ ts, t.isParenthesis = true → t.name ∈ names) →
        evaluate table scope (withoutParentheses ts) = evaluate table scope ts) ↔
      scope.IsSilentOn names) ∧
    (scope.IsSilentOn names → ∀ (table : List Function) (ts : List Token),
      (∀ t ∈ ts, t.isParenthesis = true → t.name ∈ names) →
      (∀ t ∈ withoutParentheses ts, IsCounted table t) →
      AtMost (run table scope ts []).depth? (depth? ts) ∧
        ((∀ t ∈ ts, t.kind = .reference → (scope.lookup? t.name).isSome = true) →
          (run table scope ts []).depth? = depth? ts)) ∧
    ∀ ts : List Token, depth? (withoutParentheses ts) = depth? ts := by
  refine ⟨⟨fun h => isSilentOn_of_evaluate_eq (h []), ?_⟩, ?_, Depth.from?_withoutParentheses 0⟩
  · intro hsilent table ts hnames
    rw [evaluate, evaluate, run_withoutParentheses hsilent hnames]
  · intro hsilent table ts hnames hcounted
    exact depth?_run_withoutParentheses hsilent hnames hcounted

open Token in
/-- The parentheses of `( 1 ) )` can be deleted in a scope of `~x`. -/
theorem evaluate_withoutParentheses_iff_opposite :
    evaluate Function.standard [⟨['~', 'x'], 5.0⟩]
        (withoutParentheses [leftParen, number ['1'] 1.0, rightParen, rightParen]) =
      evaluate Function.standard [⟨['~', 'x'], 5.0⟩]
        [leftParen, number ['1'] 1.0, rightParen, rightParen] := by
  have hsilent : Scope.IsSilentOn [⟨['~', 'x'], 5.0⟩] [['('], [')']] :=
    Scope.isSilentOn_parentheses.2 (List.forall_mem_singleton.2 (by decide))
  obtain ⟨hiff, -, -⟩ := evaluate_withoutParentheses_iff [⟨['~', 'x'], 5.0⟩] [['('], [')']]
  exact hiff.2 hsilent _ _ (by decide)

open Token in
/-- Where a variable is named by the opening parenthesis, `( 1` leaves two values and so no
    number, and `1` by itself is one. -/
theorem evaluate_bound_parenthesis :
    evaluate Function.standard [⟨['('], 5.0⟩] [leftParen, number ['1'] 1.0] =
        .ok (some notANumber) ∧
      evaluate Function.standard [⟨['('], 5.0⟩]
        (withoutParentheses [leftParen, number ['1'] 1.0]) = .ok (some 1.0) ∧
      (1.0 : Float) ≠ notANumber :=
  ⟨rfl, rfl, by decide⟩

end Machine

end Formula
