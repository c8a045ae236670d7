/-
  Formula.Proofs.Polish.Layers

  What can be pending at the same time, and in which order.

    * `isBarrier t` — whether `t` is an opening parenthesis or a function. No operator
      releases these.
    * `segments stack` — the operators between the barriers of a stack, the top segment first.
    * `IsLayered segment` — read from the bottom, at most one sum operator, then at most one
      product operator, then any number of factor operators.
    * `IsTidy stack` — the invariant: only barriers and operators are pending, and no operator
      would release what is directly below it.

  A token takes some tokens off the top of the stack and adds at most itself (`step_cases`).
  An operator stops at the first token that it does not release, so it is put on one that it
  keeps: this is all that the invariant asks of neighbours, and it is why `isTidy_step` needs no
  word about parentheses, matched or not. Neighbours that keep each other bind more and more
  tightly from the bottom up, where equals are allowed among factor operators only, and hence
  the layers.
-/
import Mathlib.Data.List.Chain
import Formula.Polish

namespace Formula

/-- The operators of a sum. -/
def Operator.sums : List Operator :=
  [.binary .add, .binary .subtract]

/-- The operators of a product. -/
def Operator.products : List Operator :=
  [.binary .multiply, .binary .divide]

/-- The operators of a factor. -/
def Operator.factors : List Operator :=
  [.binary .power, .negation]

/-- A token that names one of the given operators. -/
def Token.IsOneOf (ops : List Operator) (t : Token) : Prop :=
  ∃ op ∈ ops, t.operator? = some op

namespace Polish

/-- Whether a pending token is an opening parenthesis or a function. -/
def isBarrier (t : Token) : Bool :=
  t.kind == .leftParen || t.kind == .function

/-- The operators between the barriers of a stack, the top segment first and the most recent
    operator first in each. -/
def segments (stack : List Token) : List (List Token) :=
  stack.splitOnP isBarrier

/-- Operators in the order in which they can be pending: a sum operator, a product operator,
    each at most once, and factor operators. -/
structure IsLayered (segment : List Token) : Prop where
  layers : ∃ sums products factors, segment = sums ++ (products ++ factors) ∧
    sums.length ≤ 1 ∧ (∀ t ∈ sums, t.IsOneOf Operator.sums) ∧
    products.length ≤ 1 ∧ (∀ t ∈ products, t.IsOneOf Operator.products) ∧
    ∀ t ∈ factors, t.IsOneOf Operator.factors

/-- Only barriers and operators are pending, and no operator releases what is directly
    below it. -/
structure IsTidy (stack : List Token) : Prop where
  held : ∀ t ∈ stack, isBarrier t = true ∨ ∃ op, t.operator? = some op
  kept : stack.IsChain fun top below => top.kind = .operator → releases top below = false

variable {stack stack' segment ts xs ys : List Token} {t top : Token} {op : Operator}

/-! ## Barriers -/

theorem isBarrier_iff : isBarrier t = true ↔ t.kind = .leftParen ∨ t.kind = .function := by
  simp [isBarrier]

theorem isBarrier_of_operator? (h : t.operator? = some op) : isBarrier t = false := by
  simp [isBarrier, Token.kind_of_operator? h]

theorem segments_cons_of_isBarrier (h : isBarrier t = true) (stack : List Token) :
    segments (t :: stack) = [] :: segments stack := by
  rw [segments, List.splitOnP_cons_eq_if_modifyHead, if_pos h, segments]

theorem segments_cons_of_not_isBarrier (h : isBarrier t = false) (stack : List Token) :
    segments (t :: stack) = (segments stack).modifyHead (t :: ·) := by
  rw [segments, List.splitOnP_cons_eq_if_modifyHead, if_neg (by simp [h]), segments]

/-- The top segment is all that is above the first barrier. -/
theorem exists_segments_eq (stack : List Token) :
    ∃ others, segments stack = stack.takeWhile (fun t => !isBarrier t) :: others ∧
      segments (stack.dropWhile fun t => !isBarrier t) = [] :: others := by
  induction stack with
  | nil => exact ⟨[], rfl, rfl⟩
  | cons t stack ih =>
    obtain ⟨others, htop, hbelow⟩ := ih
    cases h : isBarrier t with
    | true =>
      rw [List.takeWhile_cons_of_neg (by simp [h]), List.dropWhile_cons_of_neg (by simp [h]),
        segments_cons_of_isBarrier h]
      exact ⟨segments stack, rfl, rfl⟩
    | false =>
      rw [List.takeWhile_cons_of_pos (by simp [h]), List.dropWhile_cons_of_pos (by simp [h]),
        segments_cons_of_not_isBarrier h, htop]
      exact ⟨others, rfl, hbelow⟩

/-! ## Precedences -/

/-- Every operator is one of a sum, of a product or of a factor. -/
theorem isOneOf_of_operator? (h : t.operator? = some op) :
    (t.precedence = 1 ∧ t.isLeftAssociative = true ∧ t.IsOneOf Operator.sums) ∨
      (t.precedence = 2 ∧ t.isLeftAssociative = true ∧ t.IsOneOf Operator.products) ∨
        t.precedence = 3 ∧ t.IsOneOf Operator.factors := by
  rw [Token.precedence_of_operator? h, Token.isLeftAssociative_of_operator? h]
  match op with
  | .binary .add => exact .inl ⟨rfl, rfl, _, by decide, h⟩
  | .binary .subtract => exact .inl ⟨rfl, rfl, _, by decide, h⟩
  | .binary .multiply => exact .inr (.inl ⟨rfl, rfl, _, by decide, h⟩)
  | .binary .divide => exact .inr (.inl ⟨rfl, rfl, _, by decide, h⟩)
  | .binary .power => exact .inr (.inr ⟨rfl, _, by decide, h⟩)
  | .negation => exact .inr (.inr ⟨rfl, _, by decide, h⟩)

/-- The operators that bind at least as tightly as `k` all do so as tokens. -/
theorem le_precedence_of_isOneOf {ops : List Operator} {k : Nat}
    (hops : ∀ op ∈ ops, k ≤ op.precedence) (h : t.IsOneOf ops) : k ≤ t.precedence := by
  obtain ⟨op, hop, ht⟩ := h
  rw [Token.precedence_of_operator? ht]
  exact hops op hop

theorem precedence_of_sums (h : t.IsOneOf Operator.sums) :
    t.precedence = 1 ∧ t.isLeftAssociative = true := by
  obtain ⟨op, hop, ht⟩ := h
  rw [Token.precedence_of_operator? ht, Token.isLeftAssociative_of_operator? ht]
  have hsums : ∀ op ∈ Operator.sums, op.precedence = 1 ∧ op.isLeftAssociative = true := by decide
  exact hsums op hop

/-! ## Layers -/

theorem isLayered_nil : IsLayered [] :=
  ⟨[], [], [], rfl, by decide, nofun, by decide, nofun, nofun⟩

/-- An operator that groups to the left is put on nothing that binds as tightly. -/
theorem eq_nil_of_kept (hkept : ∀ top ∈ (xs ++ ys).getLast?, releases t top = false)
    (hleft : t.isLeftAssociative = true) (hpos : 0 < t.precedence)
    (hys : ∀ u ∈ ys, t.precedence ≤ u.precedence) : ys = [] := by
  rcases List.eq_nil_or_concat ys with hnil | ⟨us, u, rfl⟩
  · exact hnil
  · have hu : t.precedence ≤ u.precedence := hys u (by simp)
    have hreleases : releases t u = true :=
      releases_of_isLeftAssociative hleft (Nat.lt_of_lt_of_le hpos hu) hu
    rw [hkept u (by simp)] at hreleases
    cases hreleases

/-- Layers stay layers if an operator is put on one that it does not release. -/
theorem IsLayered.concat (h : IsLayered segment) (ht : t.operator? = some op)
    (hkept : ∀ top ∈ segment.getLast?, releases t top = false) : IsLayered (segment ++ [t]) := by
  obtain ⟨sums, products, factors, rfl, hsums, hsum, hproducts, hproduct, hfactor⟩ := h.layers
  have hfactorBound : ∀ u ∈ factors, 3 ≤ u.precedence := fun u hu =>
    le_precedence_of_isOneOf (by decide) (hfactor u hu)
  have hproductBound : ∀ u ∈ products, 2 ≤ u.precedence := fun u hu =>
    le_precedence_of_isOneOf (by decide) (hproduct u hu)
  have hsumBound : ∀ u ∈ sums, 1 ≤ u.precedence := fun u hu =>
    le_precedence_of_isOneOf (by decide) (hsum u hu)
  rcases isOneOf_of_operator? ht with
    ⟨hone, hleft, htsum⟩ | ⟨htwo, hleft, htproduct⟩ | ⟨hthree, htfactor⟩
  · -- A sum operator is put on nothing.
    have hlayers : ∀ u ∈ sums ++ (products ++ factors), t.precedence ≤ u.precedence := by
      intro u hu
      rw [hone]
      rcases List.mem_append.1 hu with hu | hu
      · exact hsumBound u hu
      · rcases List.mem_append.1 hu with hu | hu
        · exact Nat.le_trans (by decide) (hproductBound u hu)
        · exact Nat.le_trans (by decide) (hfactorBound u hu)
    have hkept' : ∀ top ∈ ([] ++ (sums ++ (products ++ factors))).getLast?,
        releases t top = false := hkept
    have hnil : sums ++ (products ++ factors) = [] :=
      eq_nil_of_kept hkept' hleft (by omega) hlayers
    rw [hnil]
    exact ⟨[t], [], [], rfl, Nat.le_refl 1, by simpa using htsum, by decide, nofun, nofun⟩
  · -- A product operator is put on a sum operator or on nothing.
    have hlayers : ∀ u ∈ products ++ factors, t.precedence ≤ u.precedence := by
      intro u hu
      rw [htwo]
      rcases List.mem_append.1 hu with hu | hu
      · exact hproductBound u hu
      · exact Nat.le_trans (by decide) (hfactorBound u hu)
    have hnil : products ++ factors = [] := eq_nil_of_kept hkept hleft (by omega) hlayers
    rw [hnil, List.append_nil]
    exact ⟨sums, [t], [], by simp, hsums, hsum, Nat.le_refl 1, by simpa using htproduct, nofun⟩
  · refine ⟨sums, products, factors ++ [t], by simp, hsums, hsum, hproducts, hproduct, ?_⟩
    intro u hu
    rcases List.mem_append.1 hu with hu | hu
    · exact hfactor u hu
    · rw [List.mem_singleton.1 hu]
      exact htfactor

/-! ## Tidy stacks -/

theorem isTidy_nil : IsTidy [] :=
  ⟨nofun, .nil⟩

/-- What is under a part of a tidy stack is tidy. -/
theorem IsTidy.of_suffix (h : IsTidy stack) (hsuffix : stack' <:+ stack) : IsTidy stack' :=
  ⟨fun t ht => h.held t (hsuffix.subset ht), h.kept.suffix hsuffix⟩

/-- A barrier, or an operator that does not release what it is put on, keeps a stack tidy. -/
theorem IsTidy.cons (h : IsTidy stack) (ht : isBarrier t = true ∨ ∃ op, t.operator? = some op)
    (hkept : t.kind = .operator → ∀ below ∈ stack.head?, releases t below = false) :
    IsTidy (t :: stack) := by
  refine ⟨?_, ?_⟩
  · intro u hu
    rcases List.mem_cons.1 hu with rfl | hu
    · exact ht
    · exact h.held u hu
  · cases stack with
    | nil => exact .singleton t
    | cons below stack =>
      exact h.kept.cons_cons fun hoperator => hkept hoperator below rfl

/-- The segments of a tidy stack are layered. -/
theorem IsTidy.isLayered (h : IsTidy stack) :
    ∀ segment ∈ segments stack, IsLayered segment.reverse := by
  induction stack with
  | nil =>
    intro segment hsegment
    obtain rfl : segment = [] := by simpa [segments] using hsegment
    exact isLayered_nil
  | cons t stack ih =>
    have hrest := ih (h.of_suffix (List.suffix_cons t stack))
    rcases h.held t (List.mem_cons_self ..) with hbarrier | ⟨op, hop⟩
    · rw [segments_cons_of_isBarrier hbarrier]
      intro segment hsegment
      rcases List.mem_cons.1 hsegment with rfl | hsegment
      · exact isLayered_nil
      · exact hrest segment hsegment
    · -- The operator comes on the top segment, and what it is put on is the last of that.
      obtain ⟨others, hothers, -⟩ := exists_segments_eq stack
      rw [hothers] at hrest
      rw [segments_cons_of_not_isBarrier (isBarrier_of_operator? hop), hothers]
      obtain ⟨htop, hothers'⟩ := List.forall_mem_cons.1 hrest
      refine List.forall_mem_cons.2 ⟨?_, hothers'⟩
      rw [List.reverse_cons]
      refine htop.concat hop ?_
      rw [List.getLast?_reverse]
      intro below hbelow
      cases stack with
      | nil => cases hbelow
      | cons below' stack =>
        rw [List.takeWhile_cons] at hbelow
        split at hbelow
        · obtain rfl : below' = below := Option.some.inj hbelow
          exact (List.isChain_cons_cons.1 h.kept).1 (Token.kind_of_operator? hop)
        · cases hbelow

/-! ## One token -/

/-- What one token does to the stack: it takes tokens off the top, and then it is put there,
    unless it is a number, a variable or a closing parenthesis. An operator is put on what it
    does not release. -/
theorem step_cases (stack : List Token) (t : Token) :
    ∃ rest, rest <:+ stack ∧
      ((step stack t).2 = rest ∨
        (step stack t).2 = t :: rest ∧
          ((t.kind = .leftParen ∨ t.kind = .function) ∨
            t.kind = .operator ∧ ∀ below ∈ rest.head?, releases t below = false)) := by
  cases hkind : t.kind with
  | number => exact ⟨stack, List.suffix_rfl, .inl (by rw [step_number _ hkind])⟩
  | reference => exact ⟨stack, List.suffix_rfl, .inl (by rw [step_reference _ hkind])⟩
  | function =>
    exact ⟨stack, List.suffix_rfl, .inr ⟨by rw [step_function _ hkind], .inl (.inr rfl)⟩⟩
  | leftParen =>
    exact ⟨stack, List.suffix_rfl, .inr ⟨by rw [step_leftParen _ hkind], .inl (.inl rfl)⟩⟩
  | operator =>
    refine ⟨stack.dropWhile (releases t), List.dropWhile_suffix _, .inr ⟨?_, .inr ⟨rfl, ?_⟩⟩⟩
    · rw [step_operator _ hkind]
    · intro below hbelow
      have hhead := List.head?_dropWhile_not (releases t) stack
      rw [Option.mem_def.1 hbelow] at hhead
      simpa using hhead
  | rightParen =>
    refine ⟨(completed (stack.dropWhile isInside).tail).2, ?_,
      .inl (by rw [step_rightParen _ hkind])⟩
    have hcompleted : ∀ stack : List Token, (completed stack).2 <:+ stack := by
      intro stack
      cases stack with
      | nil => exact List.suffix_rfl
      | cons f stack =>
        rw [completed]
        split
        · exact List.suffix_cons f stack
        · exact List.suffix_rfl
    exact ((hcompleted _).trans (List.tail_suffix _)).trans (List.dropWhile_suffix _)

theorem isTidy_step (h : IsTidy stack) (ht : t.kind = .operator → ∃ op, t.operator? = some op) :
    IsTidy (step stack t).2 := by
  obtain ⟨rest, hsuffix, hrest | ⟨hpushed, hbarrier | ⟨hoperator, hkept⟩⟩⟩ := step_cases stack t
  · rw [hrest]
    exact h.of_suffix hsuffix
  · rw [hpushed]
    refine (h.of_suffix hsuffix).cons (.inl (isBarrier_iff.2 hbarrier)) fun hoperator => ?_
    rw [hoperator] at hbarrier
    rcases hbarrier with hleft | hfunction
    · cases hleft
    · cases hfunction
  · rw [hpushed]
    exact (h.of_suffix hsuffix).cons (.inr (ht hoperator)) fun _ => hkept

/-! ## Whole lists -/

theorem isTidy_pending (h : IsTidy stack)
    (hts : ∀ t ∈ ts, t.kind = .operator → ∃ op, t.operator? = some op) :
    IsTidy (pending stack ts) := by
  induction ts generalizing stack with
  | nil => exact h
  | cons t ts ih =>
    obtain ⟨ht, hts⟩ := List.forall_mem_cons.1 hts
    exact ih (isTidy_step h ht) hts

/-- Of what can be pending, a sum operator releases all but the barriers. -/
theorem IsTidy.releases_sum (h : IsTidy stack) (ht : t.IsOneOf Operator.sums) {u : Token}
    (hu : u ∈ stack) : releases t u = !isBarrier u := by
  obtain ⟨hone, hleft⟩ := precedence_of_sums ht
  rcases h.held u hu with hbarrier | ⟨op, hop⟩
  · rw [hbarrier]
    rcases isBarrier_iff.1 hbarrier with hkind | hkind
    · exact releases_leftParen t hkind
    · have hnone : u.operator? = none := by simp [Token.operator?, hkind]
      refine releases_of_lt ?_
      rw [hone, Token.precedence, hnone]
      decide
  · rw [isBarrier_of_operator? hop]
    have hpos : 1 ≤ u.precedence := by
      rcases isOneOf_of_operator? hop with ⟨hu, -, -⟩ | ⟨hu, -, -⟩ | ⟨hu, -⟩
      · omega
      · omega
      · omega
    exact releases_of_isLeftAssociative hleft hpos (hone ▸ hpos)

theorem takeWhile_dropWhile_congr {p q : Token → Bool} (h : ∀ u ∈ stack, p u = q u) :
    stack.takeWhile p = stack.takeWhile q ∧ stack.dropWhile p = stack.dropWhile q := by
  induction stack with
  | nil => exact ⟨rfl, rfl⟩
  | cons u stack ih =>
    obtain ⟨hu, hstack⟩ := List.forall_mem_cons.1 h
    obtain ⟨htake, hdrop⟩ := ih hstack
    rw [List.takeWhile_cons, List.takeWhile_cons, List.dropWhile_cons, List.dropWhile_cons, hu,
      htake, hdrop]
    exact ⟨rfl, rfl⟩

/-- A sum operator releases the whole top segment of a tidy stack. -/
theorem IsTidy.exists_step_sum (h : IsTidy stack) (ht : t.IsOneOf Operator.sums) :
    ∃ segment others rest, segments stack = segment :: others ∧
      step stack t = (segment, t :: rest) ∧ segments rest = [] :: others := by
  obtain ⟨others, htop, hbelow⟩ := exists_segments_eq stack
  refine ⟨_, others, _, htop, ?_, hbelow⟩
  obtain ⟨htake, hdrop⟩ := takeWhile_dropWhile_congr fun u hu => h.releases_sum ht hu
  obtain ⟨op, -, hop⟩ := ht
  rw [step_operator _ (Token.kind_of_operator? hop), htake, hdrop]

/-- **What is pending, and in which order.** Let every operator token of `ts` name an operator
    of the table; nothing else is asked of `ts`, and its parentheses need not match.

    Whatever is pending at the end of `ts`, also after some of it has been taken off the top:
    between the barriers, read from the bottom, there is at most one `+` or `-`, then at most
    one `*` or `/`, then any number of `^` and `~`. No closing parenthesis, number or variable
    is ever pending.

    A `+` or `-` that follows `ts` sends the whole top segment to the output before it is put
    on the stack, and leaves the segments below alone. -/
theorem pending_layered (ts : List Token)
    (hts : ∀ t ∈ ts, t.kind = .operator → t.operator?.isSome = true) :
    (∀ stack, stack <:+ pending [] ts →
      (∀ segment ∈ segments stack, IsLayered segment.reverse) ∧
        ∀ t ∈ stack, t.kind ≠ .rightParen ∧ t.kind ≠ .number ∧ t.kind ≠ .reference) ∧
    ∀ t, t.IsOneOf Operator.sums →
      ∃ segment others rest, segments (pending [] ts) = segment :: others ∧
        step (pending [] ts) t = (segment, t :: rest) ∧ segments rest = [] :: others := by
  have htidy : IsTidy (pending [] ts) :=
    isTidy_pending isTidy_nil fun t ht hkind => Option.isSome_iff_exists.1 (hts t ht hkind)
  refine ⟨fun stack hsuffix => ?_, fun t => htidy.exists_step_sum⟩
  have hstack := htidy.of_suffix hsuffix
  refine ⟨hstack.isLayered, fun t ht => ?_⟩
  have hkind : t.kind = .leftParen ∨ t.kind = .function ∨ t.kind = .operator := by
    rcases hstack.held t ht with hbarrier | ⟨op, hop⟩
    · exact (isBarrier_iff.1 hbarrier).imp id .inl
    · exact .inr (.inr (Token.kind_of_operator? hop))
  rcases hkind with h | h | h <;> rw [h] <;> decide

open Token in
/-- Behind `) + f ( - * ^ ~`, a `+` sends `~ ^ * -` and leaves the `(`, the `f` and the first
    `+` below. -/
theorem pending_layered_unmatched :
    (∀ t ∈ [rightParen, ofOperator (.binary .add), function ['f'], leftParen,
        ofOperator (.binary .subtract), ofOperator (.binary .multiply),
        ofOperator (.binary .power), ofOperator .negation],
      t.kind = .operator → t.operator?.isSome = true) ∧
    ∃ rest, step (pending [] [rightParen, ofOperator (.binary .add), function ['f'], leftParen,
        ofOperator (.binary .subtract), ofOperator (.binary .multiply),
        ofOperator (.binary .power), ofOperator .negation]) (ofOperator (.binary .add)) =
      ([ofOperator .negation, ofOperator (.binary .power), ofOperator (.binary .multiply),
        ofOperator (.binary .subtract)], ofOperator (.binary .add) :: rest) ∧
      segments rest = [[], [], [ofOperator (.binary .add)]] := by
  have hts : ∀ t ∈ [rightParen, ofOperator (.binary .add), function ['f'], leftParen,
      ofOperator (.binary .subtract), ofOperator (.binary .multiply),
      ofOperator (.binary .power), ofOperator .negation],
      t.kind = .operator → t.operator?.isSome = true := by decide
  obtain ⟨segment, others, rest, hsegments, hstep, hrest⟩ :=
    (pending_layered _ hts).2 (ofOperator (.binary .add)) ⟨.binary .add, by decide, rfl⟩
  have htop : segment = [ofOperator .negation, ofOperator (.binary .power),
      ofOperator (.binary .multiply), ofOperator (.binary .subtract)] :=
    (List.cons.inj hsegments).1.symm
  have hbelow : others = [[], [ofOperator (.binary .add)]] := (List.cons.inj hsegments).2.symm
  rw [htop] at hstep
  rw [hbelow] at hrest
  exact ⟨hts, rest, hstep, hrest⟩

end Polish

end Formula
