/-
  Formula.Proofs.Machine.Substitution

  A group that is a formula acts on what stands around it through its number alone.

    * `IsFresh y ts scope` — no token of `ts` and no binding of `scope` mentions the name `y`.
    * `evaluate_group` — a group between any `p` and `s` can be replaced by a variable in
      parentheses that is bound to the number of the group. Nothing is asked of `p` and `s`:
      their operators may be skipped, and their functions may end the evaluation.

  The order of a group and of its surroundings are independent of each other, so both lists
  are what `p` sends, the group, and the rest. The group pushes one number onto any stack,
  as the variable does; what is sent for `p` and `s` does not see the new binding.
-/
import Formula.Proofs.Machine.Value
import Formula.Proofs.Polish.Group

namespace Formula

/-- A name that neither a token nor a binding mentions, and that is not the name of an
    opposite. A token mentions a name also through the name of its opposite. -/
structure IsFresh (y : Text) (ts : List Token) (scope : Scope) : Prop where
  not_negated : ∀ n, y ≠ negated n
  not_token : ∀ t ∈ ts, t.name ≠ y ∧ t.name ≠ negated y
  not_bound : ∀ b ∈ scope, b.name ≠ y

open Machine Polish

variable {table : List Function} {scope : Scope} {p s a ts xs ys : List Token}
  {t l r : Token} {tree : Tree Token} {y : Text} {v : Float}

/-! ## A fresh variable -/

namespace IsFresh

theorem lookup?_eq_none (h : IsFresh y ts scope) : scope.lookup? y = none := by
  apply List.findSome?_eq_none_iff.2
  intro b hb
  exact Scope.answer?_eq_none (h.not_bound b hb) fun heq => h.not_negated b.name heq.symm

/-- A fresh variable has the number that it is bound to last. -/
theorem lookup?_bound (h : IsFresh y ts scope) (v : Float) :
    Scope.lookup? (scope ++ [⟨y, v⟩]) y = some v := by
  rw [Scope.lookup?_append, h.lookup?_eq_none, Scope.lookup?_cons]
  rw [Scope.answer?_name ⟨y, v⟩]
  rfl

/-- No token sees the binding of a fresh variable. -/
theorem lookup?_token (h : IsFresh y ts scope) (ht : t ∈ ts) (v : Float) :
    Scope.lookup? (scope ++ [⟨y, v⟩]) t.name = scope.lookup? t.name := by
  obtain ⟨hname, hnegated⟩ := h.not_token t ht
  have hnone : Scope.answer? t.name ⟨y, v⟩ = none :=
    Scope.answer?_eq_none hname.symm hnegated.symm
  rw [Scope.lookup?_append, Scope.lookup?_cons, hnone]
  exact Option.or_none

end IsFresh

/-! ## What stands around a group -/

theorem Nested.append (hx : Nested xs) (hy : Nested ys) : Nested (xs ++ ys) := by
  induction hx with
  | nil => exact hy
  | cons hleft hright _ ih => exact .cons hleft hright ih
  | group hl hx hr _ _ ih =>
    rw [List.cons_append, List.append_assoc, List.cons_append]
    exact .group hl hx hr ih

/-- The parentheses of a formula match. -/
theorem Writes.nested (h : Writes Token.Is ts tree) : Nested ts := by
  have hplain : ∀ {t : Token} {role : Role}, Token.Is role t → role.kind ≠ .leftParen →
      role.kind ≠ .rightParen → Nested [t] := by
    intro t role ht hleft hright
    rw [← ht.kind_eq] at hleft hright
    exact .cons hleft hright .nil
  induction h with
  | number hn => exact hplain hn (by decide) (by decide)
  | reference hn => exact hplain hn (by decide) (by decide)
  | negation ho _ ih => exact (hplain ho (by decide) (by decide)).append ih
  | binary _ ho _ iht ihu => exact iht.append ((hplain ho nofun nofun).append ihu)
  | group hl _ hr ih => exact ih.enclose hl hr
  | call hf hl _ hr ih => exact (hplain hf (by decide) (by decide)).append (ih.enclose hl hr)

/-- What is sent behind a group: the function that the group completes and all that the
    tokens `s` and the stack that `p` leaves have to add. -/
def Polish.behind (p s : List Token) : List Token :=
  (completed (pending [] p)).1 ++ convert (completed (pending [] p)).2 s

theorem Nested.ofTokens_between (h : Nested a) (hl : l.kind = .leftParen)
    (hr : r.kind = .rightParen) (p s : List Token) :
    ofTokens (p ++ l :: (a ++ r :: s)) = emitted [] p ++ (ofTokens a ++ behind p s) := by
  rw [h.ofTokens_group hl hr, List.append_assoc, behind]

/-- A token that is sent around a group is a number, or a token of the surroundings as it
    was. -/
theorem Polish.mem_surroundings (ht : t ∈ emitted [] p ++ behind p s) :
    t.kind = .number ∨ t ∈ p ++ s := by
  -- Around an empty group nothing else is sent.
  have hempty := Nested.nil.ofTokens_between (l := .leftParen) (r := .rightParen) rfl rfl p s
  have hmem : t ∈ ofTokens (p ++ .leftParen :: ([] ++ .rightParen :: s)) := hempty ▸ ht
  obtain ⟨u, hu, htu⟩ := mem_ofTokens_iff.1 hmem
  obtain ⟨hkind, hleft, hright⟩ := kind_of_mem_contribution htu
  by_cases hnumber : t.kind = .number
  · exact .inl hnumber
  · rw [contribution_self (hkind ▸ hnumber) (hkind ▸ hleft) (hkind ▸ hright)] at htu
    obtain rfl := List.mem_singleton.1 htu
    -- What is sent is no parenthesis, so it is not one of the two around the group.
    simp only [List.nil_append, List.mem_append, List.mem_cons] at hu
    rcases hu with hp | rfl | rfl | hs
    · exact .inr (List.mem_append_left s hp)
    · exact absurd rfl hleft
    · exact absurd rfl hright
    · exact .inr (List.mem_append_right p hs)

/-- The run of what is sent around a group does not see the binding of a fresh variable. -/
theorem IsFresh.run_eq (h : IsFresh y (p ++ s) scope) (v : Float)
    (hts : ∀ t ∈ ts, t ∈ emitted [] p ++ behind p s) (stack : Stack) :
    run table (scope ++ [⟨y, v⟩]) ts stack = run table scope ts stack := by
  refine run_congr (fun t ht stack => step_congr ?_ stack) stack
  exact (mem_surroundings (hts t ht)).imp id fun hmem => h.lookup?_token hmem v

/-! ## The value of a group -/

/-- A tree has a number if every call in it has one. -/
theorem Tree.exists_value {m : Meaning Token} (hcall : ∀ f x, ∃ z, m.call f x = .ok z)
    (tree : Tree Token) : ∃ v, tree.value m = .ok v := by
  induction tree with
  | number n => exact ⟨_, rfl⟩
  | reference n => exact ⟨_, rfl⟩
  | negation o t ih =>
    obtain ⟨x, hx⟩ := ih
    exact ⟨(-1.0) * x, by rw [Tree.value, hx]; rfl⟩
  | binary o t u iht ihu =>
    obtain ⟨x, hx⟩ := iht
    obtain ⟨z, hz⟩ := ihu
    exact ⟨m.operation o x z, by rw [Tree.value, hx, hz]; rfl⟩
  | call f t ih =>
    obtain ⟨x, hx⟩ := ih
    obtain ⟨z, hz⟩ := hcall f x
    exact ⟨z, by rw [Tree.value, hx, ← hz]; rfl⟩

/-- The functions of a table whose failures are all contained always answer. -/
theorem Machine.exists_answer (h : ∀ f ∈ table, f.IsContained) (name : Text) (x : Float) :
    ∃ z, answer table name x = .ok z := by
  unfold answer
  cases hfind : Function.find? table name with
  | none => exact ⟨_, rfl⟩
  | some f => exact exists_contained_ok (h f (List.mem_of_find?_eq_some hfind)) x

/-- Tokens that push one number onto any stack act on what is around them through it. -/
theorem Machine.evaluate_between
    (h : ∀ stack, run table scope xs stack = .finished (some v :: stack)) (ys zs : List Token) :
    evaluate table scope (ys ++ (xs ++ zs)) =
      ((run table scope ys []).andThen fun stack =>
        run table scope zs (some v :: stack)).answer := by
  have hrest : run table scope (xs ++ zs) = fun stack => run table scope zs (some v :: stack) := by
    funext stack
    rw [run_append, h]
    rfl
  rw [evaluate, run_append, hrest]

theorem IsFresh.run_reference (h : IsFresh y ts scope) (v : Float) (stack : Stack) :
    run table (scope ++ [⟨y, v⟩]) (ofTokens [.reference y]) stack =
      .finished (some v :: stack) := by
  have hstep : step table (scope ++ [⟨y, v⟩]) stack (.reference y) =
      .leaves (some v :: stack) := by
    rw [step_reference rfl]
    exact refer_of_lookup? (h.lookup?_bound v) stack
  exact run_cons_of_leaves hstep []

/-- A group that pushes one number is as good as a fresh variable bound to it. -/
theorem IsFresh.evaluate_eq (hy : IsFresh y (p ++ s) scope) (ha : Nested a)
    (hgroup : ∀ stack, run table scope (ofTokens a) stack = .finished (some v :: stack))
    (hl : l.kind = .leftParen) (hr : r.kind = .rightParen) :
    evaluate table scope (ofTokens (p ++ l :: (a ++ r :: s))) =
      evaluate table (scope ++ [⟨y, v⟩]) (ofTokens (p ++ l :: ([.reference y] ++ r :: s))) := by
  have hvariable : Nested [.reference y] := .cons nofun nofun .nil
  have hbefore : ∀ stack, run table (scope ++ [⟨y, v⟩]) (emitted [] p) stack =
      run table scope (emitted [] p) stack :=
    hy.run_eq v fun t ht => List.mem_append_left (behind p s) ht
  have hbehind : ∀ stack, run table (scope ++ [⟨y, v⟩]) (behind p s) stack =
      run table scope (behind p s) stack :=
    hy.run_eq v fun t ht => List.mem_append_right (emitted [] p) ht
  -- Both lists are what `p` sends, one number, and what is sent behind it.
  rw [ha.ofTokens_between hl hr, evaluate_between hgroup, hvariable.ofTokens_between hl hr,
    evaluate_between (hy.run_reference v), hbefore]
  simp only [hbehind]

/-- A group that is a formula acts on its surroundings through its number alone. Let the
    variables of `a` have numbers, its functions be in the table, and no function of the
    table fail uncontained. Then `a` has a number `v`, and wherever `a` stands in
    parentheses, a fresh variable that is bound to `v` may stand instead: the outcome is the
    same, also where operators around it are skipped and functions end the evaluation. -/
theorem evaluate_group (ha : Derives Token.Is .sum a tree)
    (hresolves : ∀ t ∈ a, Resolves table scope t) (hcontained : ∀ f ∈ table, f.IsContained) :
    ∃ v : Float, (ofTokens? a).bind (evaluate table scope) = .ok (some v) ∧
      ∀ (p s : List Token) (l r : Token) (y : Text), l.kind = .leftParen → r.kind = .rightParen →
        IsFresh y (p ++ s) scope →
        (ofTokens? (p ++ l :: (a ++ r :: s))).bind (evaluate table scope) =
          (ofTokens? (p ++ l :: .reference y :: r :: s)).bind
            (evaluate table (scope ++ [⟨y, v⟩])) := by
  obtain ⟨v, hv⟩ := tree.exists_value (m := meaning table scope) fun f x =>
    exists_answer hcontained f.name x
  refine ⟨v, ?_, ?_⟩
  · rw [ofTokens?, ha.not_lacksValue]
    exact (ha.evaluate_ofTokens hresolves).trans (by rw [hv]; rfl)
  · intro p s l r y hl hr hy
    have hgroup : ∀ stack, run table scope (ofTokens a) stack = .finished (some v :: stack) := by
      intro stack
      rw [ha.ofTokens_eq, ha.writes.run_postorder hresolves, hv]
      rfl
    have hvalue := hy.evaluate_eq ha.writes.nested hgroup hl hr
    have hlacks := any_lacksValue_group hl hr p a s
    have hlacks' := any_lacksValue_group hl hr p [.reference y] s
    rw [ha.not_lacksValue] at hlacks
    rw [List.singleton_append] at hvalue hlacks'
    rw [ofTokens?, ofTokens?, hlacks, hlacks']
    -- A missing number fails on both sides.
    cases (p ++ s).any lacksValue with
    | true => rfl
    | false => exact hvalue

open Token in
/-- The group of `-)f(x^x)+(` acts through its number: the subtraction and the addition around
    it are skipped, and one parenthesis on each side is stray. -/
theorem evaluate_group_unmatched :
    ∃ v : Float,
      (ofTokens? [reference ['x'], ofOperator (.binary .power), reference ['x']]).bind
        (evaluate [.total ['f'] negate] [⟨['x'], 3.0⟩]) = .ok (some v) ∧
      (ofTokens? [ofOperator (.binary .subtract), rightParen, function ['f'], leftParen,
          reference ['x'], ofOperator (.binary .power), reference ['x'], rightParen,
          ofOperator (.binary .add), leftParen]).bind
        (evaluate [.total ['f'] negate] [⟨['x'], 3.0⟩]) =
      (ofTokens? [ofOperator (.binary .subtract), rightParen, function ['f'], leftParen,
          reference ['y'], rightParen, ofOperator (.binary .add), leftParen]).bind
        (evaluate [.total ['f'] negate] [⟨['x'], 3.0⟩, ⟨['y'], v⟩]) := by
  have ha : Derives Token.Is .sum
      ([reference ['x']] ++ ofOperator (.binary .power) :: [reference ['x']]) _ :=
    .ofProduct (.ofFactor (.power (.reference rfl) rfl (.ofAtom (.reference rfl))))
  have hresolves : ∀ t ∈ [reference ['x']] ++ ofOperator (.binary .power) :: [reference ['x']],
      Resolves [.total ['f'] negate] [⟨['x'], 3.0⟩] t :=
    List.forall_mem_cons.2 ⟨⟨fun _ => rfl, nofun⟩, List.forall_mem_cons.2 ⟨⟨nofun, nofun⟩,
      List.forall_mem_singleton.2 ⟨fun _ => rfl, nofun⟩⟩⟩
  have hcontained : ∀ f ∈ [Function.total ['f'] negate], f.IsContained :=
    List.forall_mem_singleton.2 nofun
  have hfresh : IsFresh ['y']
      ([ofOperator (.binary .subtract), rightParen, function ['f']] ++
        [ofOperator (.binary .add), leftParen]) [⟨['x'], 3.0⟩] := by
    refine ⟨fun n h => ?_, ?_, List.forall_mem_singleton.2 (by decide)⟩
    · exact absurd (List.cons.inj h).1 (by decide)
    · simp [ofOperator, rightParen, function, leftParen, Operator.name, Operator.symbol, negated]
  obtain ⟨v, hv, hgroup⟩ := evaluate_group ha hresolves hcontained
  exact ⟨v, hv, hgroup _ _ leftParen rightParen ['y'] rfl rfl hfresh⟩

end Formula
