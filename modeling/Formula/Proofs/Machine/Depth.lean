/-
  Formula.Proofs.Machine.Depth

  The depth that is counted without computing any value is the depth that a run
  reaches.

    * `Token.HasTableArity`, `IsPostfix ts` — the tokens of `ts` have the arities of the
      operator table, its numbers are there, and there are no parentheses among them.
    * `Function.IsContained f` — all failures of `f` on numbers are contained.
    * `Outcome.depth?` — how many values an outcome leaves; none if the run did not finish.
    * `AtMost a b` — the count `a` is at most `b`, or `a` is none.

  A missing number is counted like any other, but an operator that takes it fails; so run
  and count are compared on stacks on which no number is missing. `depth?_run` is the
  lockstep of run and count where every variable is bound. Where some are not, the two fall
  apart: a shorter stack skips operators that a longer one does not. `Depth.step_mono` says
  that the count is monotone all the same, and `atMost_depth?_run` carries that through a
  run.
-/
import Formula.Proofs.Machine.Present

namespace Formula

/-- The arity of a token is that of the operator table: two for a binary operator, one
    for negation and for a function. -/
structure Token.HasTableArity (t : Token) : Prop where
  operator : t.kind = .operator → ∃ op : Operator, t.name = op.name ∧ t.arity = op.arity
  function : t.kind = .function → t.arity = 1

/-- Token lists without parentheses that have their numbers and the arities of the operator
    table. -/
def IsPostfix (ts : List Token) : Prop :=
  ∀ t ∈ ts, t.kind ≠ .leftParen ∧ t.kind ≠ .rightParen ∧ t.HasNumber ∧ t.HasTableArity

/-- All failures of a function on numbers are contained. -/
def Function.IsContained (f : Function) : Prop :=
  ∀ (x : Float) (fault : Fault), f.run (some x) = .error fault → fault.isContained = true

/-- One count is at most another where there is one at all. -/
def AtMost (a b : Option Int) : Prop :=
  ∀ m, a = some m → ∃ n, b = some n ∧ m ≤ n

theorem atMost_none (b : Option Int) : AtMost none b := by
  intro m hm
  cases hm

theorem atMost_some {m n : Int} (h : m ≤ n) : AtMost (some m) (some n) := by
  intro m' hm'
  cases hm'
  exact ⟨n, rfl, h⟩

/-! ## Counting -/

/-- One token keeps the order of two counts: no operator takes more than two values. -/
theorem Depth.step_mono {t : Token} (ht : t.HasTableArity) {a b : Int} (h : a ≤ b) :
    AtMost (Depth.step a t) (Depth.step b t) := by
  cases hkind : t.kind with
  | number =>
    simp only [Depth.step, hkind]
    exact atMost_some (by omega)
  | reference =>
    simp only [Depth.step, hkind]
    exact atMost_some (by omega)
  | leftParen =>
    simp only [Depth.step, hkind]
    exact atMost_some h
  | rightParen =>
    simp only [Depth.step, hkind]
    exact atMost_some h
  | function =>
    simp only [Depth.step, hkind]
    by_cases ha : a < 1
    · rw [if_pos ha]
      exact atMost_none _
    · have hb : ¬ b < 1 := by omega
      rw [if_neg ha, if_neg hb]
      exact atMost_some h
  | operator =>
    obtain ⟨op, -, harity⟩ := ht.operator hkind
    have htwo : t.arity ≤ 2 := by
      rw [harity]
      exact op.arity_le_two
    simp only [Depth.step, hkind]
    apply atMost_some
    -- Only the larger count may afford the operator. Then the smaller one is below the arity,
    -- and an operator of arity two leaves no less than that.
    by_cases ha : t.arity ≤ a
    · have hb : t.arity ≤ b := by omega
      rw [if_pos ha, if_pos hb]
      omega
    · rw [if_neg ha]
      by_cases hb : t.arity ≤ b
      · rw [if_pos hb]
        omega
      · rw [if_neg hb]
        exact h

namespace Machine

/-- How many values an outcome leaves. -/
def Outcome.depth? : Outcome → Option Int
  | finished stack => some stack.length
  | ended => none
  | failed _ => none

variable {table : List Function} {scope : Scope} {t : Token} {ts : List Token} {stack : Stack}

/-! ## One token -/

/-- A contained function answers every number. -/
theorem exists_contained_ok {f : Function} (hf : f.IsContained) (x : Float) :
    ∃ y, contained (f.value (some x)) = .ok y := by
  unfold Function.value
  cases hrun : f.run (some x) with
  | error fault => exact ⟨_, contained_error (hf x fault hrun)⟩
  | ok reply =>
    cases reply with
    | number y => exact ⟨y, rfl⟩
    | other kind => exact ⟨_, contained_error rfl⟩

theorem exists_find? {name : Text} (h : name ∈ Function.names table) :
    ∃ f ∈ table, Function.find? table name = some f := by
  obtain ⟨g, hg, hname⟩ := List.mem_map.1 h
  cases hfind : Function.find? table name with
  | none =>
    have hnone := List.find?_eq_none.1 hfind g hg
    simp [hname] at hnone
  | some f => exact ⟨f, List.mem_of_find?_eq_some hfind, rfl⟩

/-- An operator does to a stack what its arity does to the count. -/
theorem depth?_operate (op : Operator) (hs : Present stack) :
    ((operate op.name stack).outcome stack).depth? =
      some (if op.arity ≤ stack.length then stack.length - op.arity + 1 else stack.length) := by
  by_cases h : op.arity ≤ stack.length
  · rw [if_pos h]
    cases op with
    | negation =>
      cases stack with
      | nil => exact absurd h (by decide)
      | cons x stack =>
        obtain ⟨⟨x, rfl⟩, -⟩ := present_cons_iff.1 hs
        simp only [operate_negation, opposite, Effect.push, Effect.outcome, Outcome.depth?,
          List.length_cons, Operator.arity]
        congr 1
        omega
    | binary b =>
      rcases stack with _ | ⟨y, _ | ⟨x, stack⟩⟩
      · exact absurd h (by simp [Operator.arity])
      · exact absurd h (by simp [Operator.arity])
      · obtain ⟨⟨y, rfl⟩, hleft⟩ := present_cons_iff.1 hs
        obtain ⟨⟨x, rfl⟩, -⟩ := present_cons_iff.1 hleft
        simp only [operate_binary, combine, Effect.push, Effect.outcome, Outcome.depth?,
          List.length_cons, Operator.arity]
        congr 1
        omega
  · have hlt : (stack.length : Int) < op.arity := by omega
    rw [if_neg h, operate_of_length_lt hlt]
    rfl

/-- A call takes a value and leaves one, and ends the run where there is none. -/
theorem depth?_call {f : Function} (hf : f.IsContained) (hs : Present stack) :
    ((call f stack).outcome stack).depth? =
      if (stack.length : Int) < 1 then none else some (stack.length : Int) := by
  cases stack with
  | nil => rfl
  | cons x stack =>
    obtain ⟨⟨x, rfl⟩, -⟩ := present_cons_iff.1 hs
    obtain ⟨y, hy⟩ := exists_contained_ok hf x
    have hpos : ¬ (((some x :: stack).length : Int) < 1) := by
      rw [List.length_cons]
      omega
    rw [if_neg hpos, call_of_ok hy]
    rfl

/-- Tokens that the count is about: no parentheses, numbers that are there, the arities of the
    operator table, functions that are in the table of functions, whose failures on numbers
    are all contained. -/
structure IsCounted (table : List Function) (t : Token) : Prop where
  not_leftParen : t.kind ≠ .leftParen
  not_rightParen : t.kind ≠ .rightParen
  number : t.HasNumber
  arity : t.HasTableArity
  known : t.kind = .function → t.name ∈ Function.names table
  contained : ∀ f ∈ table, f.IsContained

/-- Run and count agree on one token, if it is no variable without a number. -/
theorem depth?_step (scope : Scope) (ht : IsCounted table t)
    (hbound : t.kind = .reference → (scope.lookup? t.name).isSome = true) (hs : Present stack) :
    ((step table scope stack t).outcome stack).depth? = Depth.step stack.length t := by
  cases hkind : t.kind with
  | number =>
    rw [step_number hkind]
    simp only [Depth.step, hkind]
    rfl
  | reference =>
    obtain ⟨x, hx⟩ := Option.isSome_iff_exists.1 (hbound hkind)
    rw [step_reference hkind, refer_of_lookup? hx]
    simp only [Depth.step, hkind]
    rfl
  | function =>
    obtain ⟨f, hf, hfind⟩ := exists_find? (ht.known hkind)
    rw [step_function hkind hfind, depth?_call (ht.contained f hf) hs]
    simp only [Depth.step, hkind]
  | operator =>
    obtain ⟨op, hname, harity⟩ := ht.arity.operator hkind
    rw [step_operator hkind, hname, depth?_operate op hs]
    simp only [Depth.step, hkind, harity]
  | leftParen => exact absurd hkind ht.not_leftParen
  | rightParen => exact absurd hkind ht.not_rightParen

/-- A variable without a number is counted and leaves nothing. -/
theorem atMost_depth?_step (scope : Scope) (ht : IsCounted table t) (hs : Present stack)
    {depth : Int} (h : (stack.length : Int) ≤ depth) :
    AtMost ((step table scope stack t).outcome stack).depth? (Depth.step depth t) := by
  by_cases hbound : t.kind = .reference → (scope.lookup? t.name).isSome = true
  · rw [depth?_step scope ht hbound hs]
    exact Depth.step_mono ht.arity h
  · -- The stack stays as it is, the count goes up.
    obtain ⟨hkind, hnone⟩ := Classical.not_imp.1 hbound
    rw [step_reference hkind, refer_of_lookup?_none (Option.not_isSome_iff_eq_none.1 hnone)]
    simp only [Depth.step, hkind]
    exact atMost_some (by omega)

theorem step_ne_failed (scope : Scope) (ht : IsCounted table t) (hs : Present stack)
    (fault : Fault) : (step table scope stack t).outcome stack ≠ .failed fault := by
  cases hkind : t.kind with
  | number =>
    rw [step_number hkind]
    exact Outcome.noConfusion
  | reference =>
    rw [step_reference hkind, refer]
    cases scope.lookup? t.name <;> exact Outcome.noConfusion
  | operator =>
    obtain ⟨next, hnext⟩ := hs.exists_outcome_operate t.name
    rw [step_operator hkind, hnext]
    exact Outcome.noConfusion
  | function =>
    obtain ⟨f, hf, hfind⟩ := exists_find? (ht.known hkind)
    rw [step_function hkind hfind]
    cases stack with
    | nil => exact Outcome.noConfusion
    | cons x stack =>
      obtain ⟨⟨x, rfl⟩, -⟩ := present_cons_iff.1 hs
      obtain ⟨y, hy⟩ := exists_contained_ok (ht.contained f hf) x
      rw [call_of_ok hy]
      exact Outcome.noConfusion
  | leftParen => exact absurd hkind ht.not_leftParen
  | rightParen => exact absurd hkind ht.not_rightParen

/-! ## Runs -/

/-- Run and count agree where every variable has a number. -/
theorem depth?_run (hts : ∀ t ∈ ts, IsCounted table t)
    (hbound : ∀ t ∈ ts, t.kind = .reference → (scope.lookup? t.name).isSome = true)
    (hs : Present stack) :
    (run table scope ts stack).depth? = Depth.from? stack.length ts := by
  induction ts generalizing stack with
  | nil => rfl
  | cons t ts ih =>
    obtain ⟨ht, hts⟩ := List.forall_mem_cons.1 hts
    obtain ⟨hboundt, hbound⟩ := List.forall_mem_cons.1 hbound
    have hstep := depth?_step scope ht hboundt hs
    -- The outcome of the first token decides both sides: either both go on, or neither.
    rw [run_cons, Depth.from?_cons, ← hstep]
    cases hout : (step table scope stack t).outcome stack with
    | finished next => exact ih hts hbound (hs.outcome ht.number hout)
    | ended => rfl
    | failed fault => rfl

/-- A run from a stack that is no longer than the count leaves no more than is counted. -/
theorem atMost_depth?_run (hts : ∀ t ∈ ts, IsCounted table t) (hs : Present stack) {depth : Int}
    (h : (stack.length : Int) ≤ depth) :
    AtMost (run table scope ts stack).depth? (Depth.from? depth ts) := by
  induction ts generalizing stack depth with
  | nil => exact atMost_some h
  | cons t ts ih =>
    obtain ⟨ht, hts⟩ := List.forall_mem_cons.1 hts
    have hstep := atMost_depth?_step scope ht hs h
    rw [run_cons, Depth.from?_cons]
    cases hout : (step table scope stack t).outcome stack with
    | finished next =>
      rw [hout] at hstep
      obtain ⟨n, hn, hle⟩ := hstep _ rfl
      rw [hn]
      exact ih hts (hs.outcome ht.number hout) hle
    | ended => exact atMost_none _
    | failed fault => exact atMost_none _

theorem run_ne_failed (hts : ∀ t ∈ ts, IsCounted table t) (hs : Present stack) (fault : Fault) :
    run table scope ts stack ≠ .failed fault := by
  induction ts generalizing stack with
  | nil => exact Outcome.noConfusion
  | cons t ts ih =>
    obtain ⟨ht, hts⟩ := List.forall_mem_cons.1 hts
    have hstep := step_ne_failed scope ht hs
    rw [run_cons]
    cases hout : (step table scope stack t).outcome stack with
    | finished next => exact ih hts (hs.outcome ht.number hout)
    | ended => exact Outcome.noConfusion
    | failed fault' => exact absurd hout (hstep fault')

theorem exists_run_eq_finished {n : Int}
    (h : (run table scope ts stack).depth? = some n) :
    ∃ next, run table scope ts stack = .finished next ∧ (next.length : Int) = n := by
  cases hrun : run table scope ts stack with
  | finished next =>
    rw [hrun] at h
    exact ⟨next, rfl, Option.some.inj h⟩
  | ended =>
    rw [hrun] at h
    cases h
  | failed fault =>
    rw [hrun] at h
    cases h

/-- A run that does not fail ends early or finishes with no more than is counted. -/
theorem run_atMost (scope : Scope) (hts : ∀ t ∈ ts, IsCounted table t) :
    run table scope ts [] = .ended ∨
      ∃ stack n, run table scope ts [] = .finished stack ∧ depth? ts = some n ∧
        (stack.length : Int) ≤ n := by
  have hatMost : AtMost (run table scope ts []).depth? (depth? ts) :=
    atMost_depth?_run hts present_nil (Int.le_refl 0)
  cases hrun : run table scope ts [] with
  | ended => exact .inl rfl
  | finished stack =>
    rw [hrun] at hatMost
    obtain ⟨n, hn, hle⟩ := hatMost _ rfl
    exact .inr ⟨stack, n, rfl, hn, hle⟩
  | failed fault => exact absurd hrun (run_ne_failed hts present_nil fault)

theorem run_of_depth?_none (scope : Scope) (hts : ∀ t ∈ ts, IsCounted table t)
    (h : depth? ts = none) : run table scope ts [] = .ended := by
  rcases run_atMost scope hts with hended | ⟨stack, n, -, hn, -⟩
  · exact hended
  · rw [h] at hn
    cases hn

theorem run_of_depth?_some (hts : ∀ t ∈ ts, IsCounted table t)
    (hbound : ∀ t ∈ ts, t.kind = .reference → (scope.lookup? t.name).isSome = true) {n : Int}
    (h : depth? ts = some n) :
    ∃ stack, run table scope ts [] = .finished stack ∧ (stack.length : Int) = n := by
  apply exists_run_eq_finished
  rw [depth?_run hts hbound present_nil]
  exact h

/-- The answer of a finished run is its only value, or no number where it has not
    exactly one. -/
theorem evaluate_of_finished (h : run table scope ts [] = .finished stack) :
    (∀ x, stack = [x] → evaluate table scope ts = .ok x) ∧
      (stack.length ≠ 1 → evaluate table scope ts = .ok (some notANumber)) := by
  constructor
  · intro x hx
    rw [evaluate, h, hx]
    rfl
  · intro hlength
    rw [evaluate, h]
    rcases stack with _ | ⟨x, _ | ⟨y, rest⟩⟩
    · rfl
    · exact absurd rfl hlength
    · rfl

/-- A list is complete exactly if its run, finished with as many values as are counted,
    has one value, a number, which is then the answer. -/
theorem isComplete_of_finished (hts : ∀ t ∈ ts, IsCounted table t) {n : Int}
    (hn : depth? ts = some n) (h : run table scope ts [] = .finished stack)
    (hlength : (stack.length : Int) = n) :
    (isComplete ts = true ↔
      ∃ x : Float, stack = [some x] ∧ evaluate table scope ts = .ok (some x)) ∧
      (isComplete ts = false → evaluate table scope ts = .ok (some notANumber)) := by
  obtain ⟨hone, hother⟩ := evaluate_of_finished h
  have hpresent : Present stack := present_nil.run (fun t ht => (hts t ht).number) h
  -- Run and count have the same number of values, so one is one.
  have hcomplete : isComplete ts = true ↔ stack.length = 1 := by
    rw [isComplete, hn, ← hlength, beq_iff_eq, Option.some.injEq]
    omega
  constructor
  · rw [hcomplete, List.length_eq_one_iff]
    constructor
    · rintro ⟨x, rfl⟩
      obtain ⟨⟨x, rfl⟩, -⟩ := present_cons_iff.1 hpresent
      exact ⟨x, rfl, hone _ rfl⟩
    · rintro ⟨x, hx, -⟩
      exact ⟨some x, hx⟩
  · intro hfalse
    apply hother
    intro hlen
    rw [hcomplete.2 hlen] at hfalse
    cases hfalse

end Machine

/-! ## Expressions -/

theorem Token.hasTableArity_of_kind {t : Token} (hoperator : t.kind ≠ .operator)
    (hfunction : t.kind ≠ .function) : t.HasTableArity :=
  ⟨fun h => absurd h hoperator, fun h => absurd h hfunction⟩

theorem Token.hasTableArity_ofWord (table : List Function) (p : Text) :
    (Token.ofWord table p).HasTableArity := by
  rcases Token.ofWord_cases table p with ⟨-, hword⟩ | ⟨op, hword⟩ | hword | hword | hword
  · rw [hword]
    exact ⟨nofun, fun _ => rfl⟩
  · rw [hword]
    exact ⟨fun _ => ⟨op, rfl, rfl⟩, nofun⟩
  all_goals
    rw [hword]
    exact Token.hasTableArity_of_kind nofun nofun

theorem Token.hasTableArity_of_ofPiece {table : List Function} {p : Text} {t : Token}
    (h : Token.ofPiece table p = .ok t) : t.HasTableArity := by
  rcases Token.ofPiece_cases h with ⟨x, rfl⟩ | rfl
  · exact Token.hasTableArity_of_kind nofun nofun
  · exact Token.hasTableArity_ofWord table p

theorem Token.HasTableArity.of_mem_contribution {s t : Token} (ht : t.HasTableArity)
    (h : s ∈ Polish.contribution t) : s.HasTableArity := by
  obtain ⟨hsame, hleft, hright⟩ := Polish.kind_of_mem_contribution h
  -- A number is renamed, which has no arity to keep; any other token contributes itself.
  by_cases hnumber : t.kind = .number
  · have hs : s.kind = .number := by rw [hsame, hnumber]
    exact Token.hasTableArity_of_kind (by rw [hs]; decide) (by rw [hs]; decide)
  · rw [hsame] at hleft hright
    rw [Polish.contribution_self hnumber hleft hright, List.mem_singleton] at h
    rw [h]
    exact ht

/-- The reverse Polish order of an expression has its numbers and the arities of the table. -/
theorem Expression.isPostfix_rpn (e : Expression) : IsPostfix e.rpn := by
  intro s hs
  obtain ⟨t, ht, hcontribution⟩ := Polish.mem_ofTokens_iff.1 hs
  obtain ⟨p, -, hp⟩ := Token.exists_piece_of_mem_ofText e.tokens_ofText ht
  obtain ⟨-, hleft, hright⟩ := Polish.kind_of_mem_contribution hcontribution
  exact ⟨hleft, hright, Expression.hasNumber_of_mem_rpn hs,
    (Token.hasTableArity_of_ofPiece hp).of_mem_contribution hcontribution⟩

/-! ## The count decides the run -/

open Machine

/-- The count that is made without any value decides how a run ends. The reverse Polish
    order of an expression is a list that this is about. Let a list without parentheses
    have its numbers and the arities of the table, its functions be known, and no function
    of the table fail uncontained on a number. Then in every scope:

    no count means that the run ends early, and the answer is no number;

    a count means, if all variables have a number, that the run finishes with that many
    values, and the list is complete exactly if one value is left and is the answer;

    a count means in any case that the run ends early or finishes with at most that many
    values. -/
theorem depth?_decides_run :
    (∀ e : Expression, IsPostfix e.rpn) ∧
      ∀ {table : List Function} {ts : List Token}, IsPostfix ts →
        (∀ t ∈ ts, t.kind = .function → t.name ∈ Function.names table) →
        (∀ f ∈ table, f.IsContained) → ∀ scope : Scope,
        (depth? ts = none →
          run table scope ts [] = .ended ∧
            evaluate table scope ts = .ok (some notANumber)) ∧
        (∀ n : Int, depth? ts = some n →
          (∀ t ∈ ts, t.kind = .reference → (scope.lookup? t.name).isSome = true) →
          ∃ stack, run table scope ts [] = .finished stack ∧ (stack.length : Int) = n ∧
            (isComplete ts = true ↔
              ∃ x : Float, stack = [some x] ∧ evaluate table scope ts = .ok (some x)) ∧
            (isComplete ts = false → evaluate table scope ts = .ok (some notANumber))) ∧
        (∀ n : Int, depth? ts = some n →
          run table scope ts [] = .ended ∨
            ∃ stack, run table scope ts [] = .finished stack ∧ (stack.length : Int) ≤ n) := by
  refine ⟨Expression.isPostfix_rpn, ?_⟩
  intro table ts hpostfix hknown hcontained scope
  have hts : ∀ t ∈ ts, IsCounted table t := by
    intro t ht
    obtain ⟨hleft, hright, hnumber, harity⟩ := hpostfix t ht
    exact ⟨hleft, hright, hnumber, harity, hknown t ht, hcontained⟩
  refine ⟨?_, ?_, ?_⟩
  · intro hnone
    have hended := run_of_depth?_none scope hts hnone
    refine ⟨hended, ?_⟩
    rw [evaluate, hended]
    rfl
  · intro n hn hbound
    obtain ⟨stack, hfinished, hlength⟩ := run_of_depth?_some hts hbound hn
    obtain ⟨hcomplete, hincomplete⟩ := isComplete_of_finished hts hn hfinished hlength
    exact ⟨stack, hfinished, hlength, hcomplete, hincomplete⟩
  · intro n hn
    rcases run_atMost scope hts with hended | ⟨stack, m, hfinished, hm, hle⟩
    · exact .inl hended
    · rw [hn] at hm
      cases hm
      exact .inr ⟨stack, hfinished, hle⟩

open Token in
/-- The list `2 + x - f` is complete: the addition is skipped, and one value is left. Without
    a number for `x` the run ends early or leaves at most one value. -/
theorem depth?_decides_run_skipped_operator :
    (∃ x : Float, run [.total ['f'] negate] [⟨['x'], 1.0⟩]
        [number ['2'] 2.0, ofOperator (.binary .add), reference ['x'],
          ofOperator (.binary .subtract), function ['f']] [] = .finished [some x]) ∧
      (run [.total ['f'] negate] []
          [number ['2'] 2.0, ofOperator (.binary .add), reference ['x'],
            ofOperator (.binary .subtract), function ['f']] [] = .ended ∨
        ∃ stack, run [.total ['f'] negate] []
          [number ['2'] 2.0, ofOperator (.binary .add), reference ['x'],
            ofOperator (.binary .subtract), function ['f']] [] = .finished stack ∧
          (stack.length : Int) ≤ 1) := by
  have hpostfix : IsPostfix [number ['2'] 2.0, ofOperator (.binary .add), reference ['x'],
      ofOperator (.binary .subtract), function ['f']] := by
    have hoperator : ∀ op : Operator, (ofOperator op).HasTableArity := fun op =>
      ⟨fun _ => ⟨op, rfl, rfl⟩, fun h => Kind.noConfusion h⟩
    have hfunction : (function ['f']).HasTableArity :=
      ⟨fun h => absurd h (by decide), fun _ => rfl⟩
    have hother : ∀ {t : Token}, t.kind ≠ .number → t.HasNumber := fun hkind h => absurd h hkind
    refine List.forall_mem_cons.2 ⟨⟨by decide, by decide, fun _ => rfl,
        hasTableArity_of_kind (by decide) (by decide)⟩,
      List.forall_mem_cons.2 ⟨⟨by decide, by decide, hother (by decide), hoperator _⟩,
        List.forall_mem_cons.2 ⟨⟨by decide, by decide, hother (by decide),
            hasTableArity_of_kind (by decide) (by decide)⟩,
          List.forall_mem_cons.2 ⟨⟨by decide, by decide, hother (by decide), hoperator _⟩,
            List.forall_mem_singleton.2
              ⟨by decide, by decide, hother (by decide), hfunction⟩⟩⟩⟩⟩
  have hknown : ∀ t ∈ [number ['2'] 2.0, ofOperator (.binary .add), reference ['x'],
      ofOperator (.binary .subtract), function ['f']],
      t.kind = .function → t.name ∈ Function.names [.total ['f'] negate] := by
    simp [number, ofOperator, reference, function, Function.names, Function.total,
      Function.ofOperation]
  have hcontained : ∀ f ∈ [Function.total ['f'] negate], f.IsContained := by
    refine List.forall_mem_singleton.2 fun x fault h => ?_
    cases h
  have hdecides := depth?_decides_run.2 hpostfix hknown hcontained
  have hbound : ∀ t ∈ [number ['2'] 2.0, ofOperator (.binary .add), reference ['x'],
      ofOperator (.binary .subtract), function ['f']],
      t.kind = .reference → (Scope.lookup? [⟨['x'], 1.0⟩] t.name).isSome = true := by
    have hx : (Scope.lookup? [⟨['x'], 1.0⟩] ['x']).isSome = true := rfl
    simp [number, ofOperator, reference, function, hx]
  obtain ⟨stack, hrun, -, hcomplete, -⟩ := (hdecides [⟨['x'], 1.0⟩]).2.1 1 rfl hbound
  obtain ⟨x, hx, -⟩ := hcomplete.1 rfl
  rw [hx] at hrun
  exact ⟨⟨x, hrun⟩, (hdecides []).2.2 1 rfl⟩

end Formula
