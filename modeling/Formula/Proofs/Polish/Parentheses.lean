/-
  Formula.Proofs.Polish.Parentheses

  The check of a text for matching parentheses and the stack of pending tokens agree.

    * `IsMatched stack ts` — from `stack`, every closing parenthesis of `ts` finds an opening
      one pending, and none is pending at the end.
    * `opened stack` — how many opening parentheses are pending.

  A token changes the number of pending parentheses as its character changes the number of
  open ones, whatever operators and functions lie between them. Hence `isMatched_iff`: a
  list is matched exactly if its parentheses balance from as many as are pending. The rest
  is that reading a text as tokens keeps its parentheses, provided that none of them names
  a function.
-/
import Mathlib.Tactic.TFAE
import Formula.Expression
import Formula.Proofs.Polish.Conservation
import Formula.Proofs.Token.Reading

namespace Formula

namespace Polish

variable {stack ts : List Token} {t : Token}

/-- From `stack`, no parenthesis of `ts` lacks its counterpart: each closing one finds an opening
    one pending, and at the end none is pending. -/
structure IsMatched (stack ts : List Token) : Prop where
  closed : ∀ {xs ys : List Token} {r : Token}, ts = xs ++ r :: ys → r.kind = .rightParen →
    ∃ l ∈ pending stack xs, l.kind = .leftParen
  settled : ∀ l ∈ pending stack ts, l.kind ≠ .leftParen

/-- A list is matched if its first token is, and the rest from what that leaves pending. -/
theorem isMatched_cons :
    IsMatched stack (t :: ts) ↔
      (t.kind = .rightParen → ∃ l ∈ stack, l.kind = .leftParen) ∧
        IsMatched (step stack t).2 ts := by
  constructor
  · intro h
    refine ⟨fun ht => h.closed (show t :: ts = [] ++ t :: ts from rfl) ht, ?_, h.settled⟩
    intro xs ys r hts hr
    exact h.closed (by rw [hts, List.cons_append]) hr
  · rintro ⟨hfirst, hrest⟩
    refine ⟨?_, hrest.settled⟩
    intro xs ys r hts hr
    cases xs with
    | nil =>
      obtain ⟨rfl, rfl⟩ := List.cons.inj hts
      exact hfirst hr
    | cons x xs =>
      obtain ⟨rfl, htail⟩ := List.cons.inj hts
      exact hrest.closed htail hr

/-! ## Pending parentheses -/

/-- How many opening parentheses are pending. -/
def opened (stack : List Token) : Nat :=
  stack.countP fun t => !isInside t

theorem opened_append (xs ys : List Token) : opened (xs ++ ys) = opened xs + opened ys :=
  List.countP_append

theorem opened_eq_zero_iff : opened stack = 0 ↔ ∀ l ∈ stack, l.kind ≠ .leftParen := by
  rw [opened, List.countP_eq_zero]
  simp [isInside]

theorem opened_pos_iff : 0 < opened stack ↔ ∃ l ∈ stack, l.kind = .leftParen := by
  rw [opened, List.countP_pos_iff]
  simp [isInside]

theorem opened_cons_of_ne (h : t.kind ≠ .leftParen) (stack : List Token) :
    opened (t :: stack) = opened stack :=
  List.countP_cons_of_neg (by simp [isInside_eq_true_iff.2 h])

theorem opened_cons_leftParen (h : t.kind = .leftParen) (stack : List Token) :
    opened (t :: stack) = opened stack + 1 :=
  List.countP_cons_of_pos (by simp [isInside_eq_false_iff.2 h])

/-- What is inside a group has no pending parenthesis. -/
theorem opened_dropWhile {p : Token → Bool} (hp : ∀ s, p s = true → isInside s = true)
    (stack : List Token) : opened (stack.dropWhile p) = opened stack := by
  have htake : opened (stack.takeWhile p) = 0 := by
    rw [opened_eq_zero_iff]
    intro s hs
    exact isInside_eq_true_iff.1 (hp s (List.all_eq_true.1 List.all_takeWhile s hs))
  have hsplit := opened_append (stack.takeWhile p) (stack.dropWhile p)
  rw [List.takeWhile_append_dropWhile, htake, Nat.zero_add] at hsplit
  exact hsplit.symm

theorem opened_completed (stack : List Token) : opened (completed stack).2 = opened stack := by
  cases stack with
  | nil => rfl
  | cons f rest =>
    by_cases hf : f.kind = .function
    · rw [completed, if_pos hf, opened_cons_of_ne (by rw [hf]; decide)]
    · rw [completed, if_neg hf]

/-- Below all that is inside a group there is its parenthesis or nothing. -/
theorem opened_tail_dropWhile (stack : List Token) :
    opened (stack.dropWhile isInside).tail = opened stack - 1 := by
  rw [← opened_dropWhile (fun s hs => hs) stack]
  cases hdrop : stack.dropWhile isInside with
  | nil => rfl
  | cons l rest =>
    have hhead := List.head?_dropWhile_not isInside stack
    rw [hdrop] at hhead
    have hl : l.kind = .leftParen := isInside_eq_false_iff.1 (by simpa using hhead)
    rw [List.tail_cons, opened_cons_leftParen hl, Nat.add_sub_cancel]

/-- Only parentheses change how many parentheses are pending: an opening one adds itself, a
    closing one takes one away if there is one. -/
theorem opened_step (stack : List Token) (t : Token) :
    opened (step stack t).2 =
      match t.kind with
      | .leftParen => opened stack + 1
      | .rightParen => opened stack - 1
      | _ => opened stack := by
  cases hkind : t.kind with
  | number => rw [step_number _ hkind]
  | reference => rw [step_reference _ hkind]
  | function => rw [step_function _ hkind, opened_cons_of_ne (by rw [hkind]; decide)]
  | leftParen => rw [step_leftParen _ hkind, opened_cons_leftParen hkind]
  | operator =>
    rw [step_operator _ hkind, opened_cons_of_ne (by rw [hkind]; decide),
      opened_dropWhile fun s => isInside_of_releases]
  | rightParen => rw [step_rightParen _ hkind, opened_completed, opened_tail_dropWhile]

/-! ## Matched lists -/

/-- A list is matched exactly if its parentheses balance what is pending. -/
theorem isMatched_iff (stack ts : List Token) :
    IsMatched stack ts ↔ isBalancedFrom (opened stack) (Token.written ts) = true := by
  induction ts generalizing stack with
  | nil =>
    have hnothing : IsMatched stack [] ↔ ∀ l ∈ stack, l.kind ≠ .leftParen :=
      ⟨fun h => h.settled, fun h => ⟨fun hts => by simp at hts, h⟩⟩
    rw [hnothing, ← opened_eq_zero_iff]
    simp
  | cons t ts ih =>
    have hstep := opened_step stack t
    rw [isMatched_cons, ih, Token.written_cons, Token.character]
    cases hkind : t.kind with
    | leftParen =>
      rw [hkind] at hstep
      rw [hstep]
      simp only [List.singleton_append, isBalancedFrom_open]
      exact ⟨And.right, fun h => ⟨nofun, h⟩⟩
    | rightParen =>
      rw [hkind] at hstep
      rw [hstep, ← opened_pos_iff]
      simp only [List.singleton_append]
      cases opened stack with
      | zero => exact ⟨fun h => absurd (h.1 trivial) (by decide), nofun⟩
      | succ n =>
        rw [isBalancedFrom_close, Nat.add_sub_cancel]
        exact ⟨And.right, fun h => ⟨fun _ => n.succ_pos, h⟩⟩
    | _ =>
      rw [hkind] at hstep
      rw [hstep]
      exact ⟨And.right, fun h => ⟨nofun, h⟩⟩

end Polish

open Polish

variable {table : List Function}

/-! ## Texts -/

/-- The tokens of a text are matched exactly if the text is balanced. -/
theorem isMatched_ofPieces (hopen : ['('] ∉ Function.names table)
    (hclose : [')'] ∉ Function.names table) {text : Text} {ts : List Token}
    (h : Token.ofPieces table (pieces text) = .ok ts) :
    IsMatched [] ts ↔ isBalanced text = true := by
  have hnothing : opened [] = 0 := rfl
  rw [isMatched_iff, hnothing, Token.written_eq_parentheses hopen hclose h,
    isBalancedFrom_parentheses, isBalanced]

/-- Let neither parenthesis name a function, and let all pieces of a text be readable. Then the
    check of the text, the count of its parentheses, the grammar of matching parentheses and
    the stack of pending tokens agree on whether they match. The tokens of an expression are
    always matched: a text that is not balanced has none. -/
theorem isBalanced_tfae (hopen : ['('] ∉ Function.names table)
    (hclose : [')'] ∉ Function.names table) :
    (∀ {text : Text} {ts : List Token}, Token.ofPieces table (pieces text) = .ok ts →
      List.TFAE [isBalanced text = true, openCount 0 text = 0, Matching (parentheses text),
        IsMatched [] ts]) ∧
      ∀ e : Expression, e.table = table → IsMatched [] e.tokens := by
  constructor
  · intro text ts h
    tfae_have 1 ↔ 2 := isBalancedFrom_iff_openCount 0 text
    tfae_have 1 ↔ 3 := isBalanced_iff_matching text
    tfae_have 4 ↔ 1 := isMatched_ofPieces hopen hclose h
    tfae_finish
  · intro e he
    cases hbalanced : e.isBalanced with
    | true =>
      have htokens := Expression.ofPieces_of_isBalanced hbalanced
      rw [he] at htokens
      exact (isMatched_ofPieces hopen hclose htokens).2 hbalanced
    | false =>
      rw [Expression.tokens_of_not_isBalanced hbalanced]
      exact ⟨fun hts => by simp at hts, List.forall_mem_nil _⟩

/-- The call `sin(x)` is matched. The same parentheses the other way round are not, although
    there are as many of either kind. -/
theorem isBalanced_tfae_crossed :
    IsMatched [] [Token.function "sin".toList, .leftParen, .reference ['x'], .rightParen] ∧
      ¬ IsMatched [] [.rightParen, .reference ['x'], .leftParen] := by
  have hopen : ['('] ∉ Function.names Function.standard := by decide
  have hclose : [')'] ∉ Function.names Function.standard := by decide
  have hcall : Token.ofPieces Function.standard (pieces "sin(x)".toList) =
      .ok [.function "sin".toList, .leftParen, .reference ['x'], .rightParen] := rfl
  have hcrossed : Token.ofPieces Function.standard (pieces ")x(".toList) =
      .ok [.rightParen, .reference ['x'], .leftParen] := rfl
  constructor
  · exact (((isBalanced_tfae hopen hclose).1 hcall).out 0 3).1 (by decide)
  · intro h
    exact absurd ((((isBalanced_tfae hopen hclose).1 hcrossed).out 0 3).2 h) (by decide)

end Formula
