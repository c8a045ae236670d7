/-
  Formula.Proofs.Machine.Present

  Where no number is missing.

    * `Token.HasNumber t` — the token `t` has its number, if it is a number token.
    * `Present stack` — no value of `stack` is missing.

  A missing number can only come from a number token: variables, operations and functions
  leave numbers. So the tokens that have their numbers keep a stack present (`Present.step`,
  `Present.run`). On such a stack no operator fails, and a function matters by its answers
  to numbers only (`Present.run_congr`). What is read from a text has all its numbers, so
  the value of an expression is never missing (`Expression.evaluate_rpn`).
-/
import Formula.Expression
import Formula.Proofs.Polish.Conservation

namespace Formula

/-- A number token has its number. -/
def Token.HasNumber (t : Token) : Prop :=
  t.kind = .number → t.value.isSome = true

namespace Machine

/-- No value of a stack is missing. -/
def Present (stack : Stack) : Prop :=
  ∀ x ∈ stack, x.isSome = true

variable {table table' : List Function} {scope scope' : Scope} {t : Token} {ts : List Token}
  {stack next : Stack} {name : Text}

theorem present_nil : Present [] :=
  List.forall_mem_nil _

theorem present_cons_iff {x : Option Float} :
    Present (x :: stack) ↔ (∃ y, x = some y) ∧ Present stack := by
  rw [Present, List.forall_mem_cons, Option.isSome_iff_exists]
  rfl

/-! ## One token -/

/-- An operation leaves its answer on top, if it has one. -/
theorem push_eq_leaves_iff {answer : Except Fault Float} :
    Effect.push stack answer = .leaves next ↔ ∃ y, answer = .ok y ∧ next = some y :: stack := by
  cases answer with
  | error fault => exact ⟨nofun, nofun⟩
  | ok y =>
    refine ⟨fun h => ⟨y, rfl, (Effect.leaves.inj h).symm⟩, ?_⟩
    rintro ⟨y', hy', rfl⟩
    rw [Except.ok.inj hy']
    rfl

namespace Present

theorem push (hs : Present stack) {answer : Except Fault Float}
    (h : Effect.push stack answer = .leaves next) : Present next := by
  obtain ⟨y, -, rfl⟩ := push_eq_leaves_iff.1 h
  exact present_cons_iff.2 ⟨⟨y, rfl⟩, hs⟩

theorem refer (hs : Present stack) (h : Machine.refer scope name stack = .leaves next) :
    Present next := by
  unfold Machine.refer at h
  split at h
  · rename_i x _
    cases h
    exact present_cons_iff.2 ⟨⟨x, rfl⟩, hs⟩
  · cases h
    exact hs

theorem operate (hs : Present stack) (h : Machine.operate name stack = .leaves next) :
    Present next := by
  unfold Machine.operate at h
  split at h
  · obtain ⟨-, hleft⟩ := present_cons_iff.1 hs
    exact push (present_cons_iff.1 hleft).2 h
  · exact push (present_cons_iff.1 hs).2 h
  · cases h

theorem call (hs : Present stack) {f : Function} (h : Machine.call f stack = .leaves next) :
    Present next := by
  cases stack with
  | nil => cases h
  | cons x stack => exact push (present_cons_iff.1 hs).2 h

/-- A token that has its number leaves a present stack present. -/
theorem step (ht : t.HasNumber) (hs : Present stack)
    (h : Machine.step table scope stack t = .leaves next) : Present next := by
  unfold Machine.step at h
  cases hkind : t.kind with
  | number =>
    rw [hkind] at h
    cases h
    exact present_cons_iff.2 ⟨Option.isSome_iff_exists.1 (ht hkind), hs⟩
  | operator =>
    rw [hkind] at h
    exact hs.operate h
  | function =>
    rw [hkind] at h
    cases hfind : Function.find? table t.name with
    | some f =>
      simp only [hfind] at h
      exact hs.call h
    | none =>
      simp only [hfind] at h
      exact hs.refer h
  | reference | leftParen | rightParen =>
    rw [hkind] at h
    exact hs.refer h

theorem outcome (ht : t.HasNumber) (hs : Present stack)
    (h : (Machine.step table scope stack t).outcome stack = .finished next) : Present next := by
  cases hstep : Machine.step table scope stack t with
  | leaves next' =>
    rw [hstep] at h
    cases h
    exact hs.step ht hstep
  | skipped =>
    rw [hstep] at h
    cases h
    exact hs
  | ended =>
    rw [hstep] at h
    cases h
  | failed fault =>
    rw [hstep] at h
    cases h

/-- No operator fails where no number is missing. -/
theorem exists_outcome_operate (hs : Present stack) (name : Text) :
    ∃ next, (Machine.operate name stack).outcome stack = .finished next := by
  unfold Machine.operate
  split
  · rename_i op b a rest _
    obtain ⟨⟨y, rfl⟩, hleft⟩ := present_cons_iff.1 hs
    obtain ⟨⟨x, rfl⟩, -⟩ := present_cons_iff.1 hleft
    exact ⟨some (op.apply x y) :: rest, rfl⟩
  · rename_i x rest _
    obtain ⟨⟨y, rfl⟩, -⟩ := present_cons_iff.1 hs
    exact ⟨some (negate y) :: rest, rfl⟩
  · exact ⟨_, rfl⟩

/-! ## Runs -/

/-- Tokens that have their numbers leave a present stack present. -/
theorem run (hts : ∀ t ∈ ts, t.HasNumber) (hs : Present stack)
    (h : Machine.run table scope ts stack = .finished next) : Present next := by
  induction ts generalizing stack with
  | nil =>
    cases h
    exact hs
  | cons t ts ih =>
    obtain ⟨ht, hts⟩ := List.forall_mem_cons.1 hts
    rw [run_cons] at h
    cases hout : (Machine.step table scope stack t).outcome stack with
    | finished next' =>
      rw [hout] at h
      exact ih hts (hs.outcome ht hout) h
    | ended =>
      rw [hout] at h
      cases h
    | failed fault =>
      rw [hout] at h
      cases h

/-- Two runs of tokens that have their numbers are the same if every token has the same effect
    in both wherever no number is missing. -/
theorem run_congr (hts : ∀ t ∈ ts, t.HasNumber)
    (h : ∀ t ∈ ts, ∀ stack, Present stack →
      Machine.step table scope stack t = Machine.step table' scope' stack t)
    (hs : Present stack) :
    Machine.run table scope ts stack = Machine.run table' scope' ts stack := by
  induction ts generalizing stack with
  | nil => rfl
  | cons t ts ih =>
    obtain ⟨ht, hts⟩ := List.forall_mem_cons.1 hts
    obtain ⟨hstep, h⟩ := List.forall_mem_cons.1 h
    rw [run_cons, run_cons, ← hstep stack hs]
    cases hout : (Machine.step table scope stack t).outcome stack with
    | finished next => exact ih hts h (hs.outcome ht hout)
    | ended => rfl
    | failed fault => rfl

end Present

/-- The value of a list that has all its numbers is not missing. -/
theorem exists_eq_some_of_evaluate (hts : ∀ t ∈ ts, t.HasNumber) {v : Option Float}
    (h : evaluate table scope ts = .ok v) : ∃ x, v = some x := by
  rw [evaluate] at h
  cases hrun : run table scope ts [] with
  | finished stack =>
    have hs : Present stack := present_nil.run hts hrun
    rw [hrun] at h
    rcases stack with _ | ⟨x, _ | ⟨y, rest⟩⟩
    · exact ⟨_, (Except.ok.inj h).symm⟩
    · obtain ⟨hx, -⟩ := present_cons_iff.1 hs
      cases h
      exact hx
    · exact ⟨_, (Except.ok.inj h).symm⟩
  | ended =>
    rw [hrun] at h
    exact ⟨_, (Except.ok.inj h).symm⟩
  | failed fault =>
    rw [hrun] at h
    cases h

end Machine

/-! ## Expressions -/

theorem Token.hasNumber_of_ofPiece {table : List Function} {p : Text} {t : Token}
    (h : Token.ofPiece table p = .ok t) : t.HasNumber := by
  rcases Token.ofPiece_cases h with ⟨x, rfl⟩ | rfl
  · exact fun _ => rfl
  · rcases Token.ofWord_cases table p with ⟨-, hword⟩ | ⟨op, hword⟩ | hword | hword | hword
    all_goals
      rw [hword]
      exact nofun

theorem Token.HasNumber.of_mem_contribution {s t : Token} (ht : t.HasNumber)
    (h : s ∈ Polish.contribution t) : s.HasNumber := by
  intro hkind
  have hnumber : t.kind = .number := (Polish.kind_of_mem_contribution h).1.symm.trans hkind
  rw [Polish.contribution_number hnumber, List.mem_singleton] at h
  rw [h, Token.value_canonical]
  exact ht hnumber

namespace Expression

theorem hasNumber_of_mem_rpn {e : Expression} {s : Token} (hs : s ∈ e.rpn) : s.HasNumber := by
  obtain ⟨t, ht, hcontribution⟩ := Polish.mem_ofTokens_iff.1 hs
  obtain ⟨p, -, hp⟩ := Token.exists_piece_of_mem_ofText e.tokens_ofText ht
  exact (Token.hasNumber_of_ofPiece hp).of_mem_contribution hcontribution

/-- The evaluation of an expression leaves a value that is not missing. -/
theorem evaluate_rpn (e : Expression) (scope : Scope) :
    Machine.evaluate e.table scope e.rpn = (e.evaluateWith scope).map some := by
  rw [evaluateWith]
  cases h : Machine.evaluate e.table scope e.rpn with
  | error fault => rfl
  | ok v =>
    obtain ⟨x, rfl⟩ := Machine.exists_eq_some_of_evaluate (fun _ => hasNumber_of_mem_rpn) h
    rfl

end Expression

end Formula
