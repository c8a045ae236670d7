/-
  Formula.Proofs.Polish.Group

  A group in parentheses is put into reverse Polish order on its own, wherever it
  stands and whatever is in it.

    * `Nested ts` — the parentheses of `ts` match; nothing else is asked of `ts`.
    * `RunsAbove held ts` — from `held`, the tokens `ts` do the same whether or not an
      opening parenthesis, with any stack behind it, lies under `held`. An operator stops
      at that parenthesis, and the closing parentheses of `ts` have their own.

  `Nested.runsAbove` is the invariant, `RunsAbove.convert_group` what it means for a group,
  and `exists_ofTokens?_group` the independence of a group and its surroundings.
-/
import Formula.Polish

namespace Formula

/-- Token lists whose parentheses match. -/
inductive Nested : List Token → Prop where
  | nil : Nested []
  | cons {t : Token} {ts : List Token} :
      t.kind ≠ .leftParen → t.kind ≠ .rightParen → Nested ts → Nested (t :: ts)
  | group {l r : Token} {xs ys : List Token} :
      l.kind = .leftParen → Nested xs → r.kind = .rightParen → Nested ys →
      Nested (l :: (xs ++ r :: ys))

namespace Polish

variable {held stack ts xs ys : List Token} {t l r f : Token}

/-! ## Steps above an opening parenthesis -/

/-- What is taken from the top of a stack ends at a token that is not taken. -/
theorem takeWhile_append_of_neg {p : Token → Bool} (hl : p l = false)
    (held stack : List Token) :
    (held ++ l :: stack).takeWhile p = held.takeWhile p ∧
      (held ++ l :: stack).dropWhile p = held.dropWhile p ++ l :: stack := by
  induction held with
  | nil => simp [hl]
  | cons t held ih =>
    obtain ⟨htake, hdrop⟩ := ih
    cases ht : p t with
    | false => simp [ht]
    | true => simp [ht, htake, hdrop]

/-- A function is completed above an opening parenthesis or not at all. -/
theorem completed_append (hl : l.kind = .leftParen) (held : List Token) :
    completed (held ++ l :: stack) =
      ((completed held).1, (completed held).2 ++ l :: stack) := by
  cases held with
  | nil =>
    -- The parenthesis itself is no function, so nothing under it is reached.
    have hne : l.kind ≠ .function := by rw [hl]; decide
    rw [List.nil_append, completed, if_neg hne]
    rfl
  | cons f held =>
    by_cases hf : f.kind = .function
    · rw [List.cons_append, completed, if_pos hf, completed, if_pos hf]
    · rw [List.cons_append, completed, if_neg hf, completed, if_neg hf, List.cons_append]

/-- A token that is no parenthesis does not see what lies under an opening parenthesis. -/
theorem step_append (hleft : t.kind ≠ .leftParen) (hright : t.kind ≠ .rightParen)
    (hl : l.kind = .leftParen) (held : List Token) :
    step (held ++ l :: stack) t = ((step held t).1, (step held t).2 ++ l :: stack) := by
  cases hkind : t.kind with
  | number => rw [step_number _ hkind, step_number _ hkind]
  | reference => rw [step_reference _ hkind, step_reference _ hkind]
  | function => rw [step_function _ hkind, step_function _ hkind, List.cons_append]
  | operator =>
    -- An operator releases no opening parenthesis, and stops there.
    obtain ⟨htake, hdrop⟩ := takeWhile_append_of_neg (releases_leftParen t hl) held stack
    rw [step_operator _ hkind, step_operator _ hkind, htake, hdrop, List.cons_append]
  | leftParen => exact absurd hkind hleft
  | rightParen => exact absurd hkind hright

theorem isInside_of_mem_step (hleft : t.kind ≠ .leftParen) (hright : t.kind ≠ .rightParen)
    (hheld : ∀ x ∈ held, isInside x = true) : ∀ x ∈ (step held t).2, isInside x = true := by
  have ht : isInside t = true := isInside_eq_true_iff.2 hleft
  cases hkind : t.kind with
  | number => rw [step_number _ hkind]; exact hheld
  | reference => rw [step_reference _ hkind]; exact hheld
  | function =>
    rw [step_function _ hkind]
    exact List.forall_mem_cons.2 ⟨ht, hheld⟩
  | operator =>
    rw [step_operator _ hkind]
    refine List.forall_mem_cons.2 ⟨ht, fun x hx => hheld x ?_⟩
    exact (List.dropWhile_sublist _).subset hx
  | leftParen => exact absurd hkind hleft
  | rightParen => exact absurd hkind hright

theorem isInside_of_mem_completed (hheld : ∀ x ∈ held, isInside x = true) :
    ∀ x ∈ (completed held).2, isInside x = true := by
  cases held with
  | nil => exact hheld
  | cons f held =>
    by_cases hf : f.kind = .function
    · rw [completed, if_pos hf]
      exact fun x hx => hheld x (List.mem_cons_of_mem _ hx)
    · rw [completed, if_neg hf]
      exact hheld

/-! ## Runs above an opening parenthesis -/

/-- From `held`, the tokens `ts` leave no parenthesis pending, and they do the same above
    an opening parenthesis. -/
structure RunsAbove (held ts : List Token) : Prop where
  inside : ∀ t ∈ pending held ts, isInside t = true
  pending_above : ∀ (l : Token) (stack : List Token), l.kind = .leftParen →
    pending (held ++ l :: stack) ts = pending held ts ++ l :: stack
  emitted_above : ∀ (l : Token) (stack : List Token), l.kind = .leftParen →
    emitted (held ++ l :: stack) ts = emitted held ts

theorem RunsAbove.cons (hleft : t.kind ≠ .leftParen) (hright : t.kind ≠ .rightParen)
    (h : RunsAbove (step held t).2 ts) : RunsAbove held (t :: ts) where
  inside := h.inside
  pending_above l stack hl := by
    rw [pending_cons, pending_cons, step_append hleft hright hl]
    exact h.pending_above l stack hl
  emitted_above l stack hl := by
    rw [emitted_cons, emitted_cons, step_append hleft hright hl, h.emitted_above l stack hl]

/-- After a group, the rest goes on from the stack under the group without the function
    that the group completes. -/
theorem RunsAbove.pending_group (h : RunsAbove [] xs) (hl : l.kind = .leftParen)
    (hr : r.kind = .rightParen) (stack ys : List Token) :
    pending stack (l :: (xs ++ r :: ys)) = pending (completed stack).2 ys := by
  have hpend := h.pending_above l stack hl
  rw [List.nil_append] at hpend
  rw [pending_cons, step_leftParen _ hl, pending_append, hpend, pending_cons,
    step_closing stack hl hr h.inside]

/-- A list that runs above an opening parenthesis sends all that it leaves pending. -/
theorem RunsAbove.ofTokens_eq (h : RunsAbove [] xs) :
    ofTokens xs = emitted [] xs ++ pending [] xs := by
  rw [ofTokens, convert_eq_emitted, List.filter_eq_self.2 h.inside]

/-- A group sends its contents in reverse Polish order, and then the function that it
    completes. -/
theorem RunsAbove.emitted_group (h : RunsAbove [] xs) (hl : l.kind = .leftParen)
    (hr : r.kind = .rightParen) (stack ys : List Token) :
    emitted stack (l :: (xs ++ r :: ys)) =
      ofTokens xs ++ (completed stack).1 ++ emitted (completed stack).2 ys := by
  have hpend := h.pending_above l stack hl
  have hemit := h.emitted_above l stack hl
  rw [List.nil_append] at hpend hemit
  rw [emitted_cons, step_leftParen _ hl, emitted_append, hpend, hemit, emitted_cons,
    step_closing stack hl hr h.inside, h.ofTokens_eq]
  simp only [List.nil_append, List.append_assoc]

theorem RunsAbove.convert_group (h : RunsAbove [] xs) (hl : l.kind = .leftParen)
    (hr : r.kind = .rightParen) (stack ys : List Token) :
    convert stack (l :: (xs ++ r :: ys)) =
      ofTokens xs ++ ((completed stack).1 ++ convert (completed stack).2 ys) := by
  rw [convert_eq_emitted, h.emitted_group hl hr, h.pending_group hl hr, convert_eq_emitted _ ys]
  simp only [List.append_assoc]

end Polish

open Polish

variable {p s a ts : List Token} {l r l' r' : Token}

/-- A list whose parentheses match runs above an opening parenthesis. -/
theorem Nested.runsAbove (h : Nested ts) :
    ∀ held : List Token, (∀ t ∈ held, isInside t = true) → RunsAbove held ts := by
  induction h with
  | nil =>
    intro held hheld
    exact ⟨hheld, fun _ _ _ => rfl, fun _ _ _ => rfl⟩
  | cons hleft hright _ ih =>
    intro held hheld
    exact .cons hleft hright (ih _ (isInside_of_mem_step hleft hright hheld))
  | @group l r xs ys hl _ hr _ ihx ihy =>
    intro held hheld
    -- The contents run above their own parenthesis, from nothing; the rest runs from what
    -- the closing parenthesis leaves of `held`.
    have hxs := ihx [] (List.forall_mem_nil _)
    have hys := ihy _ (isInside_of_mem_completed hheld)
    refine ⟨?_, ?_, ?_⟩
    · rw [hxs.pending_group hl hr]
      exact hys.inside
    · intro l' stack hl'
      rw [hxs.pending_group hl hr, hxs.pending_group hl hr, completed_append hl']
      exact hys.pending_above l' stack hl'
    · intro l' stack hl'
      rw [hxs.emitted_group hl hr, hxs.emitted_group hl hr, completed_append hl',
        hys.emitted_above l' stack hl']

/-! ## Groups in a token list -/

theorem Nested.enclose (h : Nested a) (hl : l.kind = .leftParen) (hr : r.kind = .rightParen) :
    Nested (l :: (a ++ [r])) :=
  .group hl h hr .nil

/-- What stands in front of a group, and the function that the group completes with all
    that follows, surround the contents of the group in reverse Polish order. -/
theorem Nested.ofTokens_group (h : Nested a) (hl : l.kind = .leftParen)
    (hr : r.kind = .rightParen) (p s : List Token) :
    ofTokens (p ++ l :: (a ++ r :: s)) =
      emitted [] p ++ ofTokens a ++
        ((completed (pending [] p)).1 ++ convert (completed (pending [] p)).2 s) := by
  have hruns := h.runsAbove [] (List.forall_mem_nil _)
  rw [ofTokens, convert_append, hruns.convert_group hl hr, List.append_assoc]

theorem Nested.ofTokens_enclose (h : Nested a) (hl : l.kind = .leftParen)
    (hr : r.kind = .rightParen) : ofTokens (l :: (a ++ [r])) = ofTokens a := by
  have hgroup := h.ofTokens_group hl hr [] []
  simpa [completed] using hgroup

theorem any_lacksValue_group (hl : l.kind = .leftParen) (hr : r.kind = .rightParen)
    (p a s : List Token) :
    (p ++ l :: (a ++ r :: s)).any lacksValue =
      ((p ++ s).any lacksValue || a.any lacksValue) := by
  have hlacks : lacksValue l = false := by simp [lacksValue, hl]
  have hracks : lacksValue r = false := by simp [lacksValue, hr]
  simp only [List.any_append, List.any_cons, hlacks, hracks, Bool.false_or]
  cases p.any lacksValue <;> cases a.any lacksValue <;> simp

/-- A missing number fails wherever it stands; without one a group is surrounded by what
    its surroundings alone decide. -/
theorem Nested.ofTokens?_group (h : Nested a) (hl : l.kind = .leftParen)
    (hr : r.kind = .rightParen) (p s : List Token) :
    ofTokens? (p ++ l :: (a ++ r :: s)) =
      (ofTokens? (p ++ s)).bind fun _ => (ofTokens? a).map fun rpn =>
        emitted [] p ++ rpn ++
          ((completed (pending [] p)).1 ++ convert (completed (pending [] p)).2 s) := by
  unfold ofTokens?
  rw [any_lacksValue_group hl hr, h.ofTokens_group hl hr]
  -- The fault is the same on whichever side the number is missing.
  cases (p ++ s).any lacksValue with
  | true => rfl
  | false =>
    cases a.any lacksValue with
    | true => rfl
    | false => rfl

theorem Nested.ofTokens?_enclose (h : Nested a) (hl : l.kind = .leftParen)
    (hr : r.kind = .rightParen) : ofTokens? (l :: (a ++ [r])) = ofTokens? a := by
  have hany := any_lacksValue_group hl hr [] a []
  rw [List.nil_append, List.nil_append, List.any_nil, Bool.false_or] at hany
  rw [ofTokens?, hany, h.ofTokens_enclose hl hr, ofTokens?]

/-- The order of a group does not depend on what stands around it, nor the order of what
    stands around it on the group: for every `p` and `s` there are `u` and `v` such that the
    tokens `a` in parentheses between `p` and `s` give the order of `a` between `u` and `v`. A
    function at the end of `p` comes directly behind the group. Hence parentheses around
    a whole list change nothing, and neither does a second pair around a group. -/
theorem exists_ofTokens?_group (p s : List Token) :
    ∃ u v : List Token,
      (∀ {l r : Token} {a : List Token}, l.kind = .leftParen → Nested a → r.kind = .rightParen →
        ofTokens? (p ++ l :: (a ++ r :: s)) =
          (ofTokens? (p ++ s)).bind fun _ => (ofTokens? a).map fun rpn => u ++ rpn ++ v) ∧
      (∀ {q : List Token} {f : Token}, p = q ++ [f] → f.kind = .function → ∃ v', v = f :: v') ∧
      (∀ {l r : Token} {a : List Token}, l.kind = .leftParen → Nested a → r.kind = .rightParen →
        ofTokens? (l :: (a ++ [r])) = ofTokens? a) ∧
      (∀ {l l' r r' : Token} {a : List Token}, l.kind = .leftParen → l'.kind = .leftParen →
        Nested a → r.kind = .rightParen → r'.kind = .rightParen →
        ofTokens? (p ++ l :: l' :: (a ++ r' :: r :: s)) = ofTokens? (p ++ l :: (a ++ r :: s))) := by
  refine ⟨emitted [] p, (completed (pending [] p)).1 ++ convert (completed (pending [] p)).2 s,
    ?_, ?_, ?_, ?_⟩
  · intro l r a hl ha hr
    exact ha.ofTokens?_group hl hr p s
  · intro q f hp hf
    -- The function is still on top of the stack when the group ends.
    have hpend : pending [] p = f :: pending [] q := by
      rw [hp, pending_append, pending_cons, step_function _ hf]
      rfl
    rw [hpend, completed_cons_function _ hf]
    exact ⟨_, rfl⟩
  · intro l r a hl ha hr
    exact ha.ofTokens?_enclose hl hr
  · intro l l' r r' a hl hl' ha hr hr'
    have hsplit : p ++ l :: l' :: (a ++ r' :: r :: s) =
        p ++ l :: ((l' :: (a ++ [r'])) ++ r :: s) := by simp
    rw [hsplit, (ha.enclose hl' hr').ofTokens?_group hl hr, ha.ofTokens?_enclose hl' hr',
      ha.ofTokens?_group hl hr]

open Token in
/-- The group of `x)f(+()y)^(` is converted on its own, with its function behind it. -/
theorem exists_ofTokens?_group_unmatched :
    ∃ u v : List Token,
      Nested [ofOperator (.binary .add), leftParen, rightParen, reference ['y']] ∧
        ofTokens? [reference ['x'], rightParen, function ['f'], leftParen,
            ofOperator (.binary .add), leftParen, rightParen, reference ['y'], rightParen,
            ofOperator (.binary .power), leftParen] =
          .ok (u ++ [reference ['y'], ofOperator (.binary .add)] ++ function ['f'] :: v) := by
  have hnested : Nested [ofOperator (.binary .add), leftParen, rightParen, reference ['y']] :=
    .cons (by decide) (by decide)
      (.group rfl .nil rfl (.cons (by decide) (by decide) .nil))
  obtain ⟨u, v, hgroup, hcall, -, -⟩ :=
    exists_ofTokens?_group [reference ['x'], rightParen, function ['f']]
      [ofOperator (.binary .power), leftParen]
  obtain ⟨v', rfl⟩ := hcall (show _ = [reference ['x'], rightParen] ++ [_] from rfl) rfl
  exact ⟨u, v', hnested, hgroup rfl hnested rfl⟩

end Formula
