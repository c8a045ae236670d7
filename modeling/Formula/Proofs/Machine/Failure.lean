/-
  Formula.Proofs.Machine.Failure

  How an evaluation fails, and that what stands behind the first fatal token does not matter.

    * `Reaches table scope ts stack t s` — the run of `ts` from `stack` gets to the token `t`
      with the stack `s`.
    * `applications table scope ts stack` — the applications of functions that this run makes,
      in order, each as the function and its operand.
    * `Function.Escapes f x fault` — the application of `f` to `x` fails with `fault`, and not
      in one of the arithmetic categories.
    * `LacksOperand t stack fault` — `t` is an operator that takes a missing number from
      `stack`, and fails with `fault`.
    * `Function.contain f` — `f` with no number in place of its arithmetic failures and of
      its answers that are no real number.

  A run can end in four ways that are no number of values: a function finds no operand
  (`run_eq_ended_iff`), an application fails and escapes, an operator takes a missing number
  (`run_eq_failed_iff`), or too many or too few values are left. The first three are fatal:
  nothing is done behind them (`run_append_of_fatal`). An arithmetic failure is not, and is
  the same as the answer no number (`run_map_contain`). Where all numbers are there, only
  applications fail, and the first that escapes decides (`findSome?_applications`).
-/
import Formula.Proofs.Machine.Present

namespace Formula

/-! ## Faults -/

/-- The categories of failures that an evaluation turns into the value that is no number. -/
def Category.arithmetic : List Category :=
  [.value, .zeroDivision, .overflow, .type]

theorem Category.isArithmetic_iff_mem (c : Category) :
    c.isArithmetic = true ↔ c ∈ Category.arithmetic := by
  cases c <;> simp [isArithmetic, arithmetic]

/-- The application of a function fails, and not in one of the arithmetic categories. -/
def Function.Escapes (f : Function) (x : Option Float) (fault : Fault) : Prop :=
  f.value x = .error fault ∧ fault.category ∉ Category.arithmetic

/-- A reply with no number in place of an arithmetic failure and of what is no real number. -/
def containReply : Except Fault Reply → Except Fault Reply
  | .ok (.number y) => .ok (.number y)
  | .ok (.other _) => .ok (.number notANumber)
  | .error fault =>
    if fault.category ∈ Category.arithmetic then .ok (.number notANumber) else .error fault

/-- The function that answers no number where the given one fails in an arithmetic category
    or answers something that is no real number. -/
def Function.contain (f : Function) : Function :=
  ⟨f.name, fun x => containReply (f.run x)⟩

namespace Machine

/-- The application that a token makes, with the operand on top of the stack. -/
def application? (table : List Function) (t : Token) : Stack → Option (Function × Option Float)
  | [] => none
  | x :: _ =>
    if t.kind = .function then (Function.find? table t.name).map fun f => (f, x) else none

/-- The applications that a run makes, in order. -/
def applications (table : List Function) (scope : Scope) :
    List Token → Stack → List (Function × Option Float)
  | [], _ => []
  | t :: ts, stack =>
    (application? table t stack).toList ++
      match (step table scope stack t).outcome stack with
      | .finished next => applications table scope ts next
      | .ended => []
      | .failed _ => []

/-- The failure of an application, if it escapes. -/
def escape? (a : Function × Option Float) : Option Fault :=
  match contained (a.1.value a.2) with
  | .ok _ => none
  | .error fault => some fault

def Outcome.fault? : Outcome → Option Fault
  | finished _ => none
  | ended => none
  | failed fault => some fault

/-- The run of a token list gets to a token with a stack. -/
def Reaches (table : List Function) (scope : Scope) (ts : List Token) (stack : Stack)
    (t : Token) (s : Stack) : Prop :=
  ∃ before after, ts = before ++ t :: after ∧ run table scope before stack = .finished s

/-- A token is an operator that takes a missing number, and the failure says which. -/
inductive LacksOperand (t : Token) : Stack → Fault → Prop where
  | left {op : BinaryOperator} (hkind : t.kind = .operator)
      (hname : t.name = (Operator.binary op).name) (b : Option Float) (rest : Stack) :
      LacksOperand t (b :: none :: rest) (.missingOperand op.title (some 0))
  | right {op : BinaryOperator} (hkind : t.kind = .operator)
      (hname : t.name = (Operator.binary op).name) (x : Float) (rest : Stack) :
      LacksOperand t (none :: some x :: rest) (.missingOperand op.title (some 1))
  | opposite (hkind : t.kind = .operator) (hname : t.name = Operator.negation.name)
      (rest : Stack) : LacksOperand t (none :: rest) .missingOpposite

variable {table : List Function} {scope : Scope} {xs ys ts : List Token} {t u : Token}
  {f : Function} {x : Option Float} {fault : Fault} {stack next s : Stack}

theorem contained_eq_error_iff {answer : Except Fault Float} :
    contained answer = .error fault ↔
      answer = .error fault ∧ fault.category ∉ Category.arithmetic := by
  rw [← Category.isArithmetic_iff_mem]
  unfold contained Fault.isContained
  cases answer with
  | ok y => exact ⟨nofun, nofun⟩
  | error fault' =>
    show (if fault'.category.isArithmetic = true then _ else _) = _ ↔ _
    split
    · rename_i harithmetic
      refine ⟨nofun, fun ⟨hfault, hnot⟩ => ?_⟩
      cases hfault
      exact absurd harithmetic hnot
    · rename_i hnot
      refine ⟨fun h => ?_, fun h => h.1⟩
      cases h
      exact ⟨rfl, hnot⟩

theorem escape?_eq_some_iff : escape? (f, x) = some fault ↔ f.Escapes x fault := by
  rw [Function.Escapes, ← contained_eq_error_iff, escape?]
  cases contained (f.value x) with
  | ok y => exact ⟨nofun, nofun⟩
  | error fault' => exact ⟨fun h => congrArg _ (Option.some.inj h), fun h => by cases h; rfl⟩

theorem escape?_eq_none_iff : escape? (f, x) = none ↔ ∀ fault, ¬ f.Escapes x fault := by
  rw [Option.eq_none_iff_forall_ne_some]
  exact forall_congr' fun fault => not_congr escape?_eq_some_iff

/-! ## One token -/

theorem exists_outcome_refer (scope : Scope) (name : Text) (stack : Stack) :
    ∃ next, (refer scope name stack).outcome stack = .finished next := by
  unfold refer
  split
  · exact ⟨_, rfl⟩
  · exact ⟨_, rfl⟩

theorem outcome_push_ne_ended (rest stack : Stack) (answer : Except Fault Float) :
    (Effect.push rest answer).outcome stack ≠ .ended := by
  cases answer <;> exact Outcome.noConfusion

/-- The failure of an operation is that of its answer. -/
theorem outcome_push_eq_failed_iff {rest : Stack} {answer : Except Fault Float} :
    (Effect.push rest answer).outcome stack = .failed fault ↔ answer = .error fault := by
  cases answer with
  | ok y => exact ⟨Outcome.noConfusion, nofun⟩
  | error fault' => exact ⟨fun h => congrArg _ (Outcome.failed.inj h), fun h => by cases h; rfl⟩

theorem outcome_operate_ne_ended (name : Text) (stack : Stack) :
    (operate name stack).outcome stack ≠ .ended := by
  unfold operate
  split
  · exact outcome_push_ne_ended _ _ _
  · exact outcome_push_ne_ended _ _ _
  · exact Outcome.noConfusion

theorem application?_of_kind_ne (h : t.kind ≠ .function) (stack : Stack) :
    application? table t stack = none := by
  cases stack with
  | nil => rfl
  | cons x stack => rw [application?, if_neg h]

/-- A token makes no application and is gone on from, or it calls a function of the table, or
    it is an operator. -/
theorem step_cases (table : List Function) (scope : Scope) (stack : Stack) (t : Token) :
    (t.kind ≠ .operator ∧ application? table t stack = none ∧
      ∃ next, (step table scope stack t).outcome stack = .finished next) ∨
    (∃ f, t.kind = .function ∧ Function.find? table t.name = some f ∧
      step table scope stack t = call f stack) ∨
    (t.kind = .operator ∧ step table scope stack t = operate t.name stack) := by
  cases hkind : t.kind with
  | operator => exact .inr (.inr ⟨rfl, step_operator hkind stack⟩)
  | function =>
    cases hfind : Function.find? table t.name with
    | some f => exact .inr (.inl ⟨f, rfl, rfl, step_function hkind hfind stack⟩)
    | none =>
      -- A function that the table does not have is looked up as a variable.
      refine .inl ⟨by decide, ?_, ?_⟩
      · cases stack with
        | nil => rfl
        | cons x stack => rw [application?, if_pos hkind, hfind]; rfl
      · simp only [step, hkind, hfind]
        exact exists_outcome_refer scope _ stack
  | number =>
    refine .inl ⟨by decide, application?_of_kind_ne (by rw [hkind]; decide) stack, ?_⟩
    exact ⟨_, by rw [step_number hkind]; rfl⟩
  | reference | leftParen | rightParen =>
    refine .inl ⟨by decide, application?_of_kind_ne (by rw [hkind]; decide) stack, ?_⟩
    simp only [step, hkind]
    exact exists_outcome_refer scope _ stack

theorem application?_eq_some_iff :
    application? table t stack = some (f, x) ↔
      ∃ rest, stack = x :: rest ∧ t.kind = .function ∧ Function.find? table t.name = some f := by
  cases stack with
  | nil => exact ⟨nofun, nofun⟩
  | cons y rest =>
    rw [application?]
    by_cases hkind : t.kind = .function
    · rw [if_pos hkind]
      cases Function.find? table t.name with
      | none => exact ⟨nofun, nofun⟩
      | some g =>
        refine ⟨fun h => ?_, ?_⟩
        · cases h
          exact ⟨rest, rfl, hkind, rfl⟩
        · rintro ⟨_, hstack, -, hg⟩
          cases hstack
          cases hg
          rfl
    · rw [if_neg hkind]
      exact ⟨nofun, fun ⟨_, _, hfunction, _⟩ => absurd hfunction hkind⟩

/-- A token ends the run early exactly if it calls a function of the table and finds no
    operand. -/
theorem outcome_eq_ended_iff :
    (step table scope stack t).outcome stack = .ended ↔
      stack = [] ∧ t.kind = .function ∧ (Function.find? table t.name).isSome = true := by
  rcases step_cases table scope stack t with
    ⟨-, -, next, hnext⟩ | ⟨f, hkind, hfind, hcall⟩ | ⟨hkind, hoperate⟩
  · rw [hnext]
    refine ⟨nofun, ?_⟩
    rintro ⟨rfl, hkind, hsome⟩
    obtain ⟨f, hf⟩ := Option.isSome_iff_exists.1 hsome
    rw [step_function hkind hf] at hnext
    cases hnext
  · rw [hcall, hfind]
    cases stack with
    | nil => exact ⟨fun _ => ⟨rfl, hkind, rfl⟩, fun _ => rfl⟩
    | cons x rest => exact ⟨fun h => absurd h (outcome_push_ne_ended _ _ _), nofun⟩
  · rw [hoperate]
    refine ⟨fun h => absurd h (outcome_operate_ne_ended _ _), ?_⟩
    rintro ⟨-, hfunction, -⟩
    rw [hkind] at hfunction
    cases hfunction

/-- An operator fails exactly if it takes a missing number. -/
theorem outcome_operate_eq_failed_iff (hkind : t.kind = .operator) :
    (operate t.name stack).outcome stack = .failed fault ↔ LacksOperand t stack fault := by
  constructor
  · intro h
    unfold operate at h
    split at h
    · rename_i op b a rest hname
      have hname := Operator.ofName?_eq_some_iff.1 hname
      match a, b, h with
      | none, b, h =>
        cases h
        exact .left hkind hname b rest
      | some x, none, h =>
        cases h
        exact .right hkind hname x rest
      | some x, some y, h => cases h
    · rename_i x rest hname
      have hname := Operator.ofName?_eq_some_iff.1 hname
      match x, h with
      | none, h =>
        cases h
        exact .opposite hkind hname rest
      | some x, h => cases h
    · cases h
  · rintro (⟨-, hname, b, rest⟩ | ⟨-, hname, x, rest⟩ | ⟨-, hname, rest⟩)
    · rw [hname, operate_binary]
      cases b <;> rfl
    · rw [hname, operate_binary]
      rfl
    · rw [hname, operate_negation]
      rfl

/-- A token fails exactly if it makes an application that escapes, or is an operator that takes
    a missing number. -/
theorem outcome_eq_failed_iff :
    (step table scope stack t).outcome stack = .failed fault ↔
      (∃ f x, application? table t stack = some (f, x) ∧ f.Escapes x fault) ∨
        LacksOperand t stack fault := by
  have hlacks : t.kind ≠ .operator → ¬ LacksOperand t stack fault := by
    rintro hkind (⟨hoperator, -⟩ | ⟨hoperator, -⟩ | ⟨hoperator, -⟩) <;> exact hkind hoperator
  rcases step_cases table scope stack t with
    ⟨hkind, hnone, next, hnext⟩ | ⟨f, hkind, hfind, hcall⟩ | ⟨hkind, hoperate⟩
  · rw [hnext, hnone]
    refine ⟨nofun, ?_⟩
    rintro (⟨f, x, happlication, -⟩ | h)
    · cases happlication
    · exact absurd h (hlacks hkind)
  · rw [hcall, or_iff_left (hlacks (by rw [hkind]; decide))]
    cases stack with
    | nil =>
      refine ⟨nofun, ?_⟩
      rintro ⟨f, x, happlication, -⟩
      cases happlication
    | cons x rest =>
      have happlication : application? table t (x :: rest) = some (f, x) := by
        rw [application?, if_pos hkind, hfind]
        rfl
      rw [happlication, call, outcome_push_eq_failed_iff, contained_eq_error_iff]
      refine ⟨fun h => ⟨f, x, rfl, h⟩, ?_⟩
      rintro ⟨g, y, hsame, hescapes⟩
      cases hsame
      exact hescapes
  · rw [hoperate, application?_of_kind_ne (by rw [hkind]; decide),
      outcome_operate_eq_failed_iff hkind]
    refine ⟨.inr, ?_⟩
    rintro (⟨f, x, happlication, -⟩ | h)
    · cases happlication
    · exact h

/-- Where no number is missing, a token fails with the failure of its application, if that
    escapes. -/
theorem findSome?_application? (table : List Function) (scope : Scope) (hs : Present stack)
    (t : Token) :
    (application? table t stack).toList.findSome? escape? =
      ((step table scope stack t).outcome stack).fault? := by
  rcases step_cases table scope stack t with
    ⟨-, hnone, next, hnext⟩ | ⟨f, hkind, hfind, hcall⟩ | ⟨hkind, hoperate⟩
  · rw [hnone, hnext]
    rfl
  · rw [hcall]
    cases stack with
    | nil => rfl
    | cons x rest =>
      have happlication : application? table t (x :: rest) = some (f, x) :=
        application?_eq_some_iff.2 ⟨rest, rfl, hkind, hfind⟩
      rw [happlication, Option.toList_some, List.findSome?_singleton, escape?, call]
      cases contained (f.value x) with
      | ok y => rfl
      | error fault => rfl
  · obtain ⟨next, hnext⟩ := hs.exists_outcome_operate t.name
    rw [hoperate, hnext, application?_of_kind_ne (by rw [hkind]; decide)]
    rfl

/-! ## What a run reaches -/

theorem not_reaches_nil : ¬ Reaches table scope [] stack t s := by
  rintro ⟨before, after, hnil, -⟩
  exact absurd hnil.symm (List.append_ne_nil_of_right_ne_nil _ (List.cons_ne_nil t after))

/-- A run reaches its first token, and what the rest reaches from there. -/
theorem reaches_cons_iff :
    Reaches table scope (u :: ts) stack t s ↔
      (t = u ∧ s = stack) ∨
        ∃ next, (step table scope stack u).outcome stack = .finished next ∧
          Reaches table scope ts next t s := by
  refine ⟨?_, ?_⟩
  · rintro ⟨before, after, hts, hrun⟩
    rcases List.cons_eq_append_iff.1 hts with ⟨rfl, hcons⟩ | ⟨before, rfl, rfl⟩
    · cases hcons
      exact .inl ⟨rfl, (Outcome.finished.inj hrun).symm⟩
    · right
      rw [run_cons] at hrun
      cases hout : (step table scope stack u).outcome stack with
      | finished next =>
        rw [hout] at hrun
        exact ⟨next, rfl, before, after, rfl, hrun⟩
      | ended =>
        rw [hout] at hrun
        cases hrun
      | failed fault =>
        rw [hout] at hrun
        cases hrun
  · rintro (⟨rfl, rfl⟩ | ⟨next, hnext, before, after, rfl, hrun⟩)
    · exact ⟨[], ts, rfl, rfl⟩
    · refine ⟨u :: before, after, rfl, ?_⟩
      rw [run_cons, hnext]
      exact hrun

/-- Something that a run reaches is found at its first token or in the rest. -/
theorem exists_reaches_cons_iff {p : Token → Stack → Prop} :
    (∃ t s, Reaches table scope (u :: ts) stack t s ∧ p t s) ↔
      p u stack ∨ ∃ next, (step table scope stack u).outcome stack = .finished next ∧
        ∃ t s, Reaches table scope ts next t s ∧ p t s := by
  simp only [reaches_cons_iff]
  refine ⟨?_, ?_⟩
  · rintro ⟨t, s, ⟨rfl, rfl⟩ | ⟨next, hnext, hreaches⟩, hp⟩
    · exact .inl hp
    · exact .inr ⟨next, hnext, t, s, hreaches, hp⟩
  · rintro (hp | ⟨next, hnext, t, s, hreaches, hp⟩)
    · exact ⟨u, stack, .inl ⟨rfl, rfl⟩, hp⟩
    · exact ⟨t, s, .inr ⟨next, hnext, hreaches⟩, hp⟩

/-- A run has an outcome that is no stack exactly if it reaches a token that has it. -/
theorem run_eq_iff_reaches {o : Outcome} (ho : ∀ last, o ≠ .finished last) :
    run table scope ts stack = o ↔
      ∃ t s, Reaches table scope ts stack t s ∧ (step table scope s t).outcome s = o := by
  induction ts generalizing stack with
  | nil =>
    exact ⟨fun h => absurd h.symm (ho stack), fun ⟨_, _, h, _⟩ => absurd h not_reaches_nil⟩
  | cons u ts ih =>
    rw [run_cons, exists_reaches_cons_iff]
    simp only [← ih]
    cases (step table scope stack u).outcome stack with
    | finished next => simp [Outcome.andThen, (ho next).symm]
    | ended => simp [Outcome.andThen]
    | failed fault => simp [Outcome.andThen]

/-- A run ends early exactly if it reaches a function of the table with no value. -/
theorem run_eq_ended_iff :
    run table scope ts stack = .ended ↔
      ∃ t, Reaches table scope ts stack t [] ∧ t.kind = .function ∧
        (Function.find? table t.name).isSome = true := by
  rw [run_eq_iff_reaches fun _ => Outcome.noConfusion]
  simp only [outcome_eq_ended_iff]
  refine ⟨?_, fun ⟨t, hreaches, ht⟩ => ⟨t, [], hreaches, rfl, ht⟩⟩
  rintro ⟨t, _, hreaches, rfl, ht⟩
  exact ⟨t, hreaches, ht⟩

/-- A run fails exactly if it reaches a function of the table whose application escapes, or an
    operator with a missing number. -/
theorem run_eq_failed_iff :
    run table scope ts stack = .failed fault ↔
      ∃ t s, Reaches table scope ts stack t s ∧
        ((∃ f x rest, s = x :: rest ∧ t.kind = .function ∧
            Function.find? table t.name = some f ∧ f.Escapes x fault) ∨
          LacksOperand t s fault) := by
  rw [run_eq_iff_reaches fun _ => Outcome.noConfusion]
  simp only [outcome_eq_failed_iff, application?_eq_some_iff]
  refine exists_congr fun t => exists_congr fun s => and_congr_right fun _ => or_congr_left ?_
  refine exists_congr fun f => exists_congr fun x => ?_
  exact ⟨fun ⟨⟨rest, hs, hkind, hfind⟩, hescapes⟩ => ⟨rest, hs, hkind, hfind, hescapes⟩,
    fun ⟨rest, hs, hkind, hfind, hescapes⟩ => ⟨⟨rest, hs, hkind, hfind⟩, hescapes⟩⟩

/-! ## Applications -/

/-- The applications of a run are those of the tokens that it reaches. -/
theorem mem_applications_iff_reaches {a : Function × Option Float} :
    a ∈ applications table scope ts stack ↔
      ∃ t s, Reaches table scope ts stack t s ∧ application? table t s = some a := by
  induction ts generalizing stack with
  | nil => exact ⟨nofun, fun ⟨_, _, h, _⟩ => absurd h not_reaches_nil⟩
  | cons u ts ih =>
    rw [applications, List.mem_append, Option.mem_toList, exists_reaches_cons_iff]
    simp only [← ih]
    cases (step table scope stack u).outcome stack <;> simp

/-- The applications of a run are those of the functions of the table that it reaches with a
    value. -/
theorem mem_applications_iff :
    (f, x) ∈ applications table scope ts stack ↔
      ∃ t rest, Reaches table scope ts stack t (x :: rest) ∧ t.kind = .function ∧
        Function.find? table t.name = some f := by
  rw [mem_applications_iff_reaches]
  simp only [application?_eq_some_iff]
  refine ⟨?_, fun ⟨t, rest, hreaches, ht⟩ => ⟨t, _, hreaches, rest, rfl, ht⟩⟩
  rintro ⟨t, _, hreaches, rest, rfl, ht⟩
  exact ⟨t, rest, hreaches, ht⟩

/-- Two lists one after the other make the applications of the first, and those of the
    second from the stack that the first leaves. -/
theorem applications_append (xs ys : List Token) (stack : Stack) :
    applications table scope (xs ++ ys) stack =
      applications table scope xs stack ++
        match run table scope xs stack with
        | .finished next => applications table scope ys next
        | .ended => []
        | .failed _ => [] := by
  induction xs generalizing stack with
  | nil => rfl
  | cons t xs ih =>
    rw [List.cons_append, applications, applications, run_cons, List.append_assoc]
    cases (step table scope stack t).outcome stack with
    | finished next => exact congrArg _ (ih next)
    | ended => rfl
    | failed fault => rfl

/-- A run on which no number is missing fails with the failure of its first application that
    escapes. -/
theorem findSome?_applications (hts : ∀ t ∈ ts, t.HasNumber) (hs : Present stack) :
    (applications table scope ts stack).findSome? escape? =
      (run table scope ts stack).fault? := by
  induction ts generalizing stack with
  | nil => rfl
  | cons t ts ih =>
    obtain ⟨ht, hts⟩ := List.forall_mem_cons.1 hts
    rw [applications, run_cons, List.findSome?_append, findSome?_application? table scope hs]
    cases hout : (step table scope stack t).outcome stack with
    | finished next => exact ih hts (hs.outcome ht hout)
    | ended => rfl
    | failed fault => rfl

theorem Outcome.fault?_eq_some_iff (o : Outcome) : o.fault? = some fault ↔ o = .failed fault := by
  cases o with
  | finished stack => exact ⟨nofun, nofun⟩
  | ended => exact ⟨nofun, nofun⟩
  | failed fault' => exact ⟨fun h => congrArg _ (Option.some.inj h), fun h => by cases h; rfl⟩

theorem evaluate_eq_error_iff :
    evaluate table scope ts = .error fault ↔ run table scope ts [] = .failed fault := by
  unfold evaluate
  match run table scope ts [] with
  | .finished [] => exact ⟨nofun, nofun⟩
  | .finished [y] => exact ⟨nofun, nofun⟩
  | .finished (y :: z :: rest) => exact ⟨nofun, nofun⟩
  | .ended => exact ⟨nofun, nofun⟩
  | .failed fault' => exact ⟨fun h => by cases h; rfl, fun h => by cases h; rfl⟩

theorem evaluate_eq_error_iff_findSome? (hts : ∀ t ∈ ts, t.HasNumber) :
    evaluate table scope ts = .error fault ↔
      (applications table scope ts []).findSome? escape? = some fault := by
  rw [evaluate_eq_error_iff, findSome?_applications hts present_nil, Outcome.fault?_eq_some_iff]

/-- The failure of an evaluation is that of the earliest application that escapes. -/
theorem evaluate_eq_error_iff_applications (hts : ∀ t ∈ ts, t.HasNumber) :
    evaluate table scope ts = .error fault ↔
      ∃ before f x after, applications table scope ts [] = before ++ (f, x) :: after ∧
        f.Escapes x fault ∧ ∀ a ∈ before, ∀ fault', ¬ a.1.Escapes a.2 fault' := by
  rw [evaluate_eq_error_iff_findSome? hts, List.findSome?_eq_some_iff]
  refine ⟨?_, ?_⟩
  · rintro ⟨before, ⟨f, x⟩, after, happlications, hescape, hbefore⟩
    exact ⟨before, f, x, after, happlications, escape?_eq_some_iff.1 hescape,
      fun a ha => escape?_eq_none_iff.1 (hbefore a ha)⟩
  · rintro ⟨before, f, x, after, happlications, hescape, hbefore⟩
    exact ⟨before, (f, x), after, happlications, escape?_eq_some_iff.2 hescape,
      fun a ha => escape?_eq_none_iff.2 (hbefore a ha)⟩

/-- An evaluation fails exactly if an application that it makes escapes. -/
theorem exists_evaluate_eq_error_iff (hts : ∀ t ∈ ts, t.HasNumber) :
    (∃ fault, evaluate table scope ts = .error fault) ↔
      ∃ f x fault, (f, x) ∈ applications table scope ts [] ∧ f.Escapes x fault := by
  refine ⟨?_, ?_⟩
  · rintro ⟨fault, herror⟩
    obtain ⟨before, f, x, after, happlications, hescapes, -⟩ :=
      (evaluate_eq_error_iff_applications hts).1 herror
    refine ⟨f, x, fault, ?_, hescapes⟩
    rw [happlications]
    exact List.mem_append_right before (List.mem_cons_self ..)
  · rintro ⟨f, x, fault, hmem, hescapes⟩
    have hsome : ((applications table scope ts []).findSome? escape?).isSome = true :=
      List.findSome?_isSome_iff.2 ⟨(f, x), hmem, by rw [escape?_eq_some_iff.2 hescapes]; rfl⟩
    obtain ⟨first, hfirst⟩ := Option.isSome_iff_exists.1 hsome
    exact ⟨first, (evaluate_eq_error_iff_findSome? hts).2 hfirst⟩

/-! ## Behind a fatal token -/

/-- Nothing is done behind a run that does not finish. -/
theorem run_append_of_fatal (h : ∀ next, run table scope xs stack ≠ .finished next)
    (ys : List Token) :
    run table scope (xs ++ ys) stack = run table scope xs stack ∧
      applications table scope (xs ++ ys) stack = applications table scope xs stack := by
  rw [run_append, applications_append]
  cases hrun : run table scope xs stack with
  | finished next => exact absurd hrun (h next)
  | ended => exact ⟨rfl, List.append_nil _⟩
  | failed fault => exact ⟨rfl, List.append_nil _⟩

theorem evaluate_append_of_fatal (h : ∀ next, run table scope xs [] ≠ .finished next)
    (ys : List Token) :
    evaluate table scope (xs ++ ys) = evaluate table scope xs ∧
      applications table scope (xs ++ ys) [] = applications table scope xs [] := by
  obtain ⟨hrun, happlications⟩ := run_append_of_fatal h ys
  exact ⟨by rw [evaluate, evaluate, hrun], happlications⟩

/-! ## Tables without arithmetic failures -/

/-- A contained function answers a number, or fails as before with a failure that escapes. -/
theorem run_contain (f : Function) (x : Option Float) :
    (∃ y, f.contain.run x = .ok (.number y)) ∨
      ∃ fault, f.contain.run x = .error fault ∧ f.Escapes x fault := by
  simp only [Function.Escapes, Function.contain, Function.value]
  cases f.run x with
  | ok reply =>
    cases reply with
    | number y => exact .inl ⟨y, rfl⟩
    | other kind => exact .inl ⟨notANumber, rfl⟩
  | error fault =>
    by_cases harithmetic : fault.category ∈ Category.arithmetic
    · exact .inl ⟨notANumber, if_pos harithmetic⟩
    · exact .inr ⟨fault, if_neg harithmetic, rfl, harithmetic⟩

/-- The answers of a contained function are those that an evaluation gets. -/
theorem value_contain (f : Function) (x : Option Float) :
    f.contain.value x = contained (f.value x) := by
  simp only [Function.contain, Function.value]
  cases f.run x with
  | ok reply =>
    cases reply with
    | number y => rfl
    | other kind => rfl
  | error fault =>
    by_cases harithmetic : fault.category ∈ Category.arithmetic
    · rw [containReply, if_pos harithmetic,
        contained_error ((Category.isArithmetic_iff_mem _).2 harithmetic)]
    · rw [containReply, if_neg harithmetic]
      exact (contained_eq_error_iff.2 ⟨rfl, harithmetic⟩).symm

theorem contained_contained (answer : Except Fault Float) :
    contained (contained answer) = contained answer := by
  cases h : contained answer with
  | ok y => rfl
  | error fault =>
    exact contained_eq_error_iff.2 ⟨rfl, (contained_eq_error_iff.1 h).2⟩

theorem call_contain (f : Function) (stack : Stack) : call f.contain stack = call f stack := by
  cases stack with
  | nil => rfl
  | cons x stack => rw [call, call, value_contain, contained_contained]

theorem find?_map_contain (table : List Function) (name : Text) :
    Function.find? (table.map Function.contain) name =
      (Function.find? table name).map Function.contain := by
  rw [Function.find?, List.find?_map]
  rfl

/-- No run tells the functions of a table from the contained ones. -/
theorem run_map_contain (table : List Function) (scope : Scope) (ts : List Token)
    (stack : Stack) :
    run (table.map Function.contain) scope ts stack = run table scope ts stack := by
  refine run_congr (fun t _ stack => ?_) stack
  cases hkind : t.kind with
  | function =>
    simp only [step, hkind, find?_map_contain]
    cases Function.find? table t.name with
    | none => rfl
    | some f => exact call_contain f stack
  | number => simp only [step, hkind]
  | operator => simp only [step, hkind]
  | reference => simp only [step, hkind]
  | leftParen => simp only [step, hkind]
  | rightParen => simp only [step, hkind]

/-! ## The first fatal token -/

/-- The first fatal token decides the outcome of an evaluation, whatever the functions of the
    table answer and however they fail.

    A run ends early exactly if it reaches a function of the table with no value, and the
    applications that it makes are those of the functions of the table that it reaches with
    one.

    If the run of `xs` ends early or fails, then no list behind `xs` changes the answer, no
    number or the failure, and no further function is applied.

    An evaluation of a list that has its numbers fails exactly if an application that it makes
    escapes, and then with the failure of the earliest such application. An evaluation of any
    list fails at the first token that is a function whose application escapes or an operator
    that takes a missing number, and with that failure.

    Functions that answer no number instead of failing in an arithmetic category, or of
    answering what is no real number, give the same outcome. They answer a number wherever
    no failure escapes. -/
theorem evaluate_first_fatal_token (table : List Function) (scope : Scope) (xs : List Token) :
    (run table scope xs [] = .ended ↔ ∃ t, Reaches table scope xs [] t [] ∧
      t.kind = .function ∧ (Function.find? table t.name).isSome = true) ∧
    (∀ f x, (f, x) ∈ applications table scope xs [] ↔
      ∃ t rest, Reaches table scope xs [] t (x :: rest) ∧ t.kind = .function ∧
        Function.find? table t.name = some f) ∧
    (run table scope xs [] = .ended → ∀ ys,
      evaluate table scope (xs ++ ys) = .ok (some notANumber) ∧
        applications table scope (xs ++ ys) [] = applications table scope xs []) ∧
    (∀ fault, evaluate table scope xs = .error fault → ∀ ys,
      evaluate table scope (xs ++ ys) = .error fault ∧
        applications table scope (xs ++ ys) [] = applications table scope xs []) ∧
    ((∀ t ∈ xs, t.HasNumber) →
      ((∃ fault, evaluate table scope xs = .error fault) ↔
        ∃ f x fault, (f, x) ∈ applications table scope xs [] ∧ f.Escapes x fault) ∧
      ∀ fault, evaluate table scope xs = .error fault ↔
        ∃ before f x after, applications table scope xs [] = before ++ (f, x) :: after ∧
          f.Escapes x fault ∧ ∀ a ∈ before, ∀ fault', ¬ a.1.Escapes a.2 fault') ∧
    (∀ fault, evaluate table scope xs = .error fault ↔
      ∃ t s, Reaches table scope xs [] t s ∧
        ((∃ f x rest, s = x :: rest ∧ t.kind = .function ∧
            Function.find? table t.name = some f ∧ f.Escapes x fault) ∨
          LacksOperand t s fault)) ∧
    evaluate (table.map Function.contain) scope xs = evaluate table scope xs ∧
    ∀ (f : Function) (x : Option Float), (∃ y, f.contain.run x = .ok (.number y)) ∨
      ∃ fault, f.contain.run x = .error fault ∧ f.Escapes x fault := by
  refine ⟨run_eq_ended_iff, fun f x => mem_applications_iff, ?_, ?_, fun hxs =>
    ⟨exists_evaluate_eq_error_iff hxs, fun fault => evaluate_eq_error_iff_applications hxs⟩,
    fun fault => evaluate_eq_error_iff.trans run_eq_failed_iff, ?_, run_contain⟩
  · intro hended ys
    have hanswer : evaluate table scope xs = .ok (some notANumber) := by
      rw [evaluate, hended]
      rfl
    rw [← hanswer]
    exact evaluate_append_of_fatal (fun _ => by rw [hended]; exact Outcome.noConfusion) ys
  · intro fault herror ys
    have hfailed : run table scope xs [] = .failed fault := evaluate_eq_error_iff.1 herror
    rw [← herror]
    exact evaluate_append_of_fatal (fun _ => by rw [hfailed]; exact Outcome.noConfusion) ys
  · rw [evaluate, evaluate, run_map_contain]

open Token in
/-- Behind `1 f g` nothing is done, where `f` divides by zero and `g` fails in a category of its
    own: the failure of `f` is contained and that of `g` escapes. Behind `f` by itself nothing is
    done either, since it has no operand. The opposite of a missing number fails. -/
theorem evaluate_first_fatal_token_division :
    (∀ ys, evaluate [⟨['f'], fun _ => .error .divisionByZero⟩,
        ⟨['g'], fun _ => .error (.reported (.other ['g']) "full".toList)⟩] []
        ([number ['1'] 1.0, function ['f'], function ['g']] ++ ys) =
      .error (.reported (.other ['g']) "full".toList)) ∧
    (∀ ys, evaluate [⟨['f'], fun _ => .error .divisionByZero⟩,
        ⟨['g'], fun _ => .error (.reported (.other ['g']) "full".toList)⟩] []
        ([function ['f']] ++ ys) = .ok (some notANumber)) ∧
    evaluate [] [] [{ kind := .number, name := ['1'] }, ofOperator .negation] =
      .error .missingOpposite := by
  obtain ⟨-, -, -, hfailed, -⟩ := evaluate_first_fatal_token
    [⟨['f'], fun _ => .error .divisionByZero⟩,
      ⟨['g'], fun _ => .error (.reported (.other ['g']) "full".toList)⟩] []
    [number ['1'] 1.0, function ['f'], function ['g']]
  obtain ⟨-, -, hended, -⟩ := evaluate_first_fatal_token
    [⟨['f'], fun _ => .error .divisionByZero⟩,
      ⟨['g'], fun _ => .error (.reported (.other ['g']) "full".toList)⟩] [] [function ['f']]
  obtain ⟨-, -, -, -, -, hfails, -⟩ := evaluate_first_fatal_token [] []
    [{ kind := .number, name := ['1'] }, ofOperator .negation]
  refine ⟨fun ys => (hfailed _ rfl ys).1, fun ys => (hended rfl ys).1, (hfails _).2 ?_⟩
  exact ⟨ofOperator .negation, [none], ⟨[_], [], rfl, rfl⟩, .inr (.opposite rfl rfl [])⟩

end Machine

end Formula
