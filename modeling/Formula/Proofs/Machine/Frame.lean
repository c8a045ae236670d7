/-
  Formula.Proofs.Machine.Frame

  A run that neither skips an operator nor stops leaves what is under it alone.

    * `skips table scope ts stack` — the operators that the run of `ts` from `stack` skips,
      in order.

  Whether a token is skipped, ends the run or takes its operands is decided by how many
  values are on the stack, so a run above other values can differ from the one above none.
  It differs only where an operand was missing: a token that leaves a stack leaves the same
  above any values (`step_append`), and by induction so does a run of such tokens
  (`run_append_stack`), token by token (`reaches_append_stack_iff`).
-/
import Formula.Proofs.Machine.Failure

namespace Formula

namespace Machine

/-- The operators that a run skips, in order. -/
def skips (table : List Function) (scope : Scope) : List Token → Stack → List Token
  | [], _ => []
  | t :: ts, stack =>
    match step table scope stack t with
    | .leaves next => skips table scope ts next
    | .skipped => t :: skips table scope ts stack
    | .ended => []
    | .failed _ => []

variable {table : List Function} {scope : Scope} {ts : List Token} {t u : Token}
  {f : Function} {name : Text} {stack next last s : Stack}

/-! ## Skipped operators -/

theorem skips_cons_of_leaves (h : step table scope stack t = .leaves next) (ts : List Token) :
    skips table scope (t :: ts) stack = skips table scope ts next := by
  simp only [skips, h]

theorem skips_cons_of_skipped (h : step table scope stack t = .skipped) (ts : List Token) :
    skips table scope (t :: ts) stack = t :: skips table scope ts stack := by
  simp only [skips, h]

/-! ## One token above other values -/

theorem refer_append (scope : Scope) (name : Text) (stack below : Stack) :
    ∃ next, refer scope name stack = .leaves next ∧
      refer scope name (stack ++ below) = .leaves (next ++ below) := by
  unfold refer
  cases scope.lookup? name with
  | some x => exact ⟨some x :: stack, rfl, rfl⟩
  | none => exact ⟨stack, rfl, rfl⟩

theorem push_append {answer : Except Fault Float} (h : Effect.push stack answer = .leaves next)
    (below : Stack) : Effect.push (stack ++ below) answer = .leaves (next ++ below) := by
  obtain ⟨y, rfl, rfl⟩ := push_eq_leaves_iff.1 h
  rfl

/-- An operator that finds its operands takes them from the top. -/
theorem operate_append (h : operate name stack = .leaves next) (below : Stack) :
    operate name (stack ++ below) = .leaves (next ++ below) := by
  unfold operate at h
  split at h
  · rename_i op y x rest hname
    simp only [operate, hname, List.cons_append]
    exact push_append h below
  · rename_i x rest hname
    simp only [operate, hname, List.cons_append]
    exact push_append h below
  · cases h

/-- A function that finds an operand takes it from the top. -/
theorem call_append (h : call f stack = .leaves next) (below : Stack) :
    call f (stack ++ below) = .leaves (next ++ below) := by
  cases stack with
  | nil => cases h
  | cons x rest => exact push_append h below

/-- A token that leaves a stack leaves the same above any other values. -/
theorem step_append (h : step table scope stack t = .leaves next) (below : Stack) :
    step table scope (stack ++ below) t = .leaves (next ++ below) := by
  have hrefer : ∀ name, refer scope name stack = .leaves next →
      refer scope name (stack ++ below) = .leaves (next ++ below) := by
    intro name hname
    obtain ⟨next', hleaves, habove⟩ := refer_append scope name stack below
    rw [hleaves] at hname
    cases hname
    exact habove
  unfold step at h ⊢
  cases hkind : t.kind with
  | number =>
    simp only [hkind] at h ⊢
    cases h
    rfl
  | operator =>
    simp only [hkind] at h ⊢
    exact operate_append h below
  | function =>
    simp only [hkind] at h ⊢
    cases hfind : Function.find? table t.name with
    | some f =>
      simp only [hfind] at h ⊢
      exact call_append h below
    | none =>
      simp only [hfind] at h ⊢
      exact hrefer _ h
  | reference =>
    simp only [hkind] at h ⊢
    exact hrefer _ h
  | leftParen =>
    simp only [hkind] at h ⊢
    exact hrefer _ h
  | rightParen =>
    simp only [hkind] at h ⊢
    exact hrefer _ h

theorem application?_append (h : step table scope stack t = .leaves next) (below : Stack) :
    application? table t (stack ++ below) = application? table t stack := by
  cases stack with
  | cons x rest => rfl
  | nil =>
    -- Without a value on the stack, the token is no function of the table.
    have hnot : ¬ (t.kind = .function ∧ (Function.find? table t.name).isSome = true) := by
      intro hfunction
      have hended : (step table scope [] t).outcome [] = .ended :=
        outcome_eq_ended_iff.2 ⟨rfl, hfunction⟩
      rw [h] at hended
      cases hended
    cases below with
    | nil => rfl
    | cons x below =>
      show (if t.kind = .function then _ else _) = _
      split
      · rename_i hkind
        cases hfind : Function.find? table t.name with
        | none => rfl
        | some f => exact absurd ⟨hkind, by rw [hfind]; rfl⟩ hnot
      · rfl

/-! ## Runs above other values -/

/-- The first token of a run that neither skips nor stops leaves a stack, from which the rest
    neither skips nor stops. -/
theorem exists_leaves_of_run (hskips : skips table scope (t :: ts) stack = [])
    (hrun : run table scope (t :: ts) stack = .finished last) :
    ∃ next, step table scope stack t = .leaves next ∧ skips table scope ts next = [] ∧
      run table scope ts next = .finished last := by
  rw [run_cons] at hrun
  cases hstep : step table scope stack t with
  | leaves next =>
    rw [skips_cons_of_leaves hstep] at hskips
    rw [hstep] at hrun
    exact ⟨next, rfl, hskips, hrun⟩
  | skipped =>
    rw [skips_cons_of_skipped hstep] at hskips
    cases hskips
  | ended =>
    rw [hstep] at hrun
    cases hrun
  | failed fault =>
    rw [hstep] at hrun
    cases hrun

/-- A run that neither skips nor stops does neither above any other values, and leaves them
    under what it leaves above none. -/
theorem run_append_stack (hskips : skips table scope ts stack = [])
    (hrun : run table scope ts stack = .finished last) (below : Stack) :
    skips table scope ts (stack ++ below) = [] ∧
      run table scope ts (stack ++ below) = .finished (last ++ below) := by
  induction ts generalizing stack with
  | nil =>
    cases hrun
    exact ⟨rfl, rfl⟩
  | cons t ts ih =>
    obtain ⟨next, hstep, hskips, hrun⟩ := exists_leaves_of_run hskips hrun
    have habove := step_append hstep below
    rw [skips_cons_of_leaves habove, run_cons_of_leaves habove]
    exact ih hskips hrun

theorem applications_append_stack (hskips : skips table scope ts stack = [])
    (hrun : run table scope ts stack = .finished last) (below : Stack) :
    applications table scope ts (stack ++ below) = applications table scope ts stack := by
  induction ts generalizing stack with
  | nil => rfl
  | cons t ts ih =>
    obtain ⟨next, hstep, hskips, hrun⟩ := exists_leaves_of_run hskips hrun
    rw [applications, applications, application?_append hstep below, step_append hstep below, hstep]
    exact congrArg _ (ih hskips hrun)

/-- At each token, such a run has the other values under what it has above none. -/
theorem reaches_append_stack_iff (hskips : skips table scope ts stack = [])
    (hrun : run table scope ts stack = .finished last) (below : Stack) :
    Reaches table scope ts (stack ++ below) u s ↔
      ∃ above, Reaches table scope ts stack u above ∧ s = above ++ below := by
  induction ts generalizing stack with
  | nil => exact ⟨fun h => absurd h not_reaches_nil, fun ⟨_, h, _⟩ => absurd h not_reaches_nil⟩
  | cons t ts ih =>
    obtain ⟨next, hstep, hskips, hrun⟩ := exists_leaves_of_run hskips hrun
    simp only [reaches_cons_iff, step_append hstep below, hstep, Effect.outcome]
    refine ⟨?_, ?_⟩
    · rintro (⟨rfl, rfl⟩ | ⟨_, hnext, hreaches⟩)
      · exact ⟨stack, .inl ⟨rfl, rfl⟩, rfl⟩
      · cases hnext
        obtain ⟨above, habove, rfl⟩ := (ih hskips hrun).1 hreaches
        exact ⟨above, .inr ⟨next, rfl, habove⟩, rfl⟩
    · rintro ⟨above, ⟨rfl, rfl⟩ | ⟨_, hnext, hreaches⟩, rfl⟩
      · exact .inl ⟨rfl, rfl⟩
      · cases hnext
        exact .inr ⟨next ++ below, rfl, (ih hskips hrun).2 ⟨above, hreaches, rfl⟩⟩

/-- Every token that such a run reaches leaves a stack, the same above any other values. -/
theorem exists_leaves_of_reaches (hskips : skips table scope ts stack = [])
    (hrun : run table scope ts stack = .finished last)
    (hreaches : Reaches table scope ts stack u s) :
    ∃ next, ∀ below, step table scope (s ++ below) u = .leaves (next ++ below) := by
  induction ts generalizing stack with
  | nil => exact absurd hreaches not_reaches_nil
  | cons t ts ih =>
    obtain ⟨next, hstep, hskips, hrun⟩ := exists_leaves_of_run hskips hrun
    rcases reaches_cons_iff.1 hreaches with ⟨rfl, rfl⟩ | ⟨_, hnext, hreaches⟩
    · exact ⟨next, step_append hstep⟩
    · rw [hstep] at hnext
      cases hnext
      exact ih hskips hrun hreaches

/-- **What is under a run is left alone.** Let the run of `xs` from the empty stack skip no
    operator, end early nowhere and let no failure escape, and let it leave `last`. Then above
    any values `below` it skips nothing, finishes, and leaves `last` with exactly `below` under
    it.

    No value of `below` is read or changed on the way: at each token the run has `below` under
    what the run from the empty stack has there, the token does to what is above `below` what
    it does without it, whatever `below` is, and the functions are applied to the same
    operands. -/
theorem run_leaves_below (table : List Function) (scope : Scope) (xs : List Token)
    (last : Stack) (hskips : skips table scope xs [] = [])
    (hrun : run table scope xs [] = .finished last) :
    (∀ below, skips table scope xs below = [] ∧
      run table scope xs below = .finished (last ++ below) ∧
      applications table scope xs below = applications table scope xs []) ∧
    (∀ below t s, Reaches table scope xs below t s ↔
      ∃ above, Reaches table scope xs [] t above ∧ s = above ++ below) ∧
    ∀ t above, Reaches table scope xs [] t above →
      ∃ next, ∀ below, step table scope (above ++ below) t = .leaves (next ++ below) := by
  refine ⟨fun below => ?_, fun below t s => reaches_append_stack_iff hskips hrun below,
    fun t above => exists_leaves_of_reaches hskips hrun⟩
  obtain ⟨hskips', hrun'⟩ := run_append_stack hskips hrun below
  exact ⟨hskips', hrun', applications_append_stack hskips hrun below⟩

open Token in
/-- Above any values, `1 2 ~ + q f` leaves one value, where `q` is not bound and `f` fails in an
    arithmetic category. -/
theorem run_leaves_below_contained_failure :
    skips [⟨['f'], fun _ => .error .divisionByZero⟩] []
        [number ['1'] 1.0, number ['2'] 2.0, ofOperator .negation, ofOperator (.binary .add),
          reference ['q'], function ['f']] [] = [] ∧
      ∀ below, run [⟨['f'], fun _ => .error .divisionByZero⟩] []
        [number ['1'] 1.0, number ['2'] 2.0, ofOperator .negation, ofOperator (.binary .add),
          reference ['q'], function ['f']] below = .finished ([some notANumber] ++ below) := by
  have hskips : skips [⟨['f'], fun _ => .error .divisionByZero⟩] []
      [number ['1'] 1.0, number ['2'] 2.0, ofOperator .negation, ofOperator (.binary .add),
        reference ['q'], function ['f']] [] = [] := rfl
  exact ⟨hskips, fun below => ((run_leaves_below _ _ _ _ hskips rfl).1 below).2.1⟩

end Machine

end Formula
