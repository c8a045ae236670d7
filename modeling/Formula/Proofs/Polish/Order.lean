/-
  Formula.Proofs.Polish.Order

  Where the tokens of a list come to stand in reverse Polish order, position by position.

    * `Token.isOperand`, `Token.isParenthesis` — the tokens that wait for nothing, and those
      that leave no trace.
    * `exists_order_convert` — the output is the tokens of certain positions, in an order in
      which all that comes before an operand stood before it.

  A list may hold equal tokens, so the order is one of positions and not of tokens. The
  invariant is that no operand is pending: an operand is sent when it is read, behind all
  that was sent before, and operators and functions wait for later. Nothing is assumed
  about parentheses or about the grammar.
-/
import Mathlib.Data.List.FinRange
import Mathlib.Data.List.Perm.Basic
import Formula.Proofs.Polish.Conservation

namespace Formula

/-- Whether a token is a value of its own: a number or a variable. -/
def Token.isOperand (t : Token) : Bool :=
  t.kind == .number || t.kind == .reference

def Token.isParenthesis (t : Token) : Bool :=
  t.kind == .leftParen || t.kind == .rightParen

namespace Polish

variable {stack ts : List Token} {s t : Token}

/-! ## What is sent for a token -/

theorem canonical_of_not_isOperand (h : t.isOperand = false) : t.canonical = t := by
  apply Token.canonical_of_kind_ne
  intro hnumber
  rw [Token.isOperand, hnumber] at h
  cases h

@[simp] theorem isOperand_canonical (t : Token) : t.canonical.isOperand = t.isOperand := by
  simp only [Token.isOperand, Token.kind_canonical]

/-- A token that is no parenthesis contributes itself, as the output has it. -/
theorem contribution_eq_canonical (t : Token) :
    contribution t = if t.isParenthesis then [] else [t.canonical] := by
  cases hkind : t.kind with
  | number => simp [contribution, Token.isParenthesis, hkind]
  | leftParen => simp [contribution, Token.isParenthesis, hkind]
  | rightParen => simp [contribution, Token.isParenthesis, hkind]
  | _ =>
    rw [Token.canonical_of_kind_ne (by rw [hkind]; decide)]
    simp [contribution, Token.isParenthesis, hkind]

/-! ## What is pending -/

theorem mem_of_mem_completed (h : s ∈ (completed stack).2) : s ∈ stack := by
  cases stack with
  | nil => exact h
  | cons f rest =>
    rw [completed] at h
    split at h
    · exact List.mem_cons_of_mem _ h
    · exact h

/-- What is pending after a token was pending before or is the token itself, which then is
    no operand and no closing parenthesis. -/
theorem mem_step (h : s ∈ (step stack t).2) :
    s ∈ stack ∨ s = t ∧ t.isOperand = false ∧ t.kind ≠ .rightParen := by
  cases hkind : t.kind with
  | number =>
    rw [step_number _ hkind] at h
    exact .inl h
  | reference =>
    rw [step_reference _ hkind] at h
    exact .inl h
  | function =>
    rw [step_function _ hkind] at h
    exact (List.mem_cons.1 h).symm.imp id fun hs => ⟨hs, by simp [Token.isOperand, hkind]⟩
  | leftParen =>
    rw [step_leftParen _ hkind] at h
    exact (List.mem_cons.1 h).symm.imp id fun hs => ⟨hs, by simp [Token.isOperand, hkind]⟩
  | operator =>
    rw [step_operator _ hkind] at h
    rcases List.mem_cons.1 h with hs | hs
    · exact .inr ⟨hs, by simp [Token.isOperand, hkind]⟩
    · exact .inl ((List.dropWhile_sublist _).subset hs)
  | rightParen =>
    rw [step_rightParen _ hkind] at h
    have htail := List.mem_of_mem_tail (mem_of_mem_completed h)
    exact .inl ((List.dropWhile_sublist _).subset htail)

/-- No operand is pending after a token if none was before. -/
theorem not_isOperand_of_mem_step (h : ∀ s ∈ stack, s.isOperand = false) :
    ∀ s ∈ (step stack t).2, s.isOperand = false := by
  intro s hs
  rcases mem_step hs with hs | ⟨rfl, ht, -⟩
  · exact h s hs
  · exact ht

/-- An operand is all that is sent when it is read. -/
theorem step_of_isOperand (stack : List Token) (h : t.isOperand = true) :
    step stack t = ([t.canonical], stack) := by
  cases hkind : t.kind with
  | number => rw [step_number _ hkind, Token.rendered_eq_canonical hkind]
  | reference =>
    rw [step_reference _ hkind, Token.canonical_of_kind_ne (by rw [hkind]; decide)]
  | _ => simp [Token.isOperand, hkind] at h

/-! ## Positions -/

variable {α : Type} {token : α → Token} {r : α → α → Prop} {held xs : List α} {x : α}

/-- A list that is the tokens of some positions in another order is the tokens of those
    positions, put into another order. -/
theorem exists_of_perm_map {β : Type} {g : α → β} {us vs : List β}
    (h : (us ++ vs).Perm (xs.map g)) :
    ∃ ys zs : List α, us = ys.map g ∧ vs = zs.map g ∧ (ys ++ zs).Perm xs := by
  have hcomp : Relation.Comp (· = List.map g ·) List.Perm (us ++ vs) xs := by
    rw [List.eq_map_comp_perm]
    exact h
  obtain ⟨ws, hmap, hperm⟩ := hcomp
  obtain ⟨ys, zs, rfl, rfl, rfl⟩ := List.append_eq_map_iff.1 hmap
  exact ⟨ys, zs, rfl, rfl, hperm⟩

/-- The position of a token that adds to the output, now or later. -/
def contributed (token : α → Token) (x : α) : List α :=
  [x].filter fun x => !(token x).isParenthesis

theorem mem_contributed {y : α} (h : y ∈ contributed token x) : y = x :=
  List.mem_singleton.1 (List.mem_filter.1 h).1

theorem map_contributed (x : α) :
    (contributed token x).map (fun x => (token x).canonical) = contribution (token x) := by
  rw [contribution_eq_canonical, contributed]
  cases hparen : (token x).isParenthesis <;> simp [hparen]

theorem map_canonical_of_not_isOperand (h : ∀ x ∈ xs, (token x).isOperand = false) :
    xs.map (fun x => (token x).canonical) = xs.map token :=
  List.map_congr_left fun x hx => canonical_of_not_isOperand (h x hx)

/-- The positions of what is pending are not those of operands. -/
theorem not_isOperand_of_map_eq {stack : List Token}
    (hheld : stack.filter isInside = held.map token) (hstack : ∀ s ∈ stack, s.isOperand = false) :
    ∀ y ∈ held, (token y).isOperand = false := by
  intro y hy
  have hmem : token y ∈ stack.filter isInside := hheld ▸ List.mem_map_of_mem hy
  exact hstack _ (List.mem_filter.1 hmem).1

/-- One token sends the tokens of some positions and keeps those of others: together they
    are the positions that were held and its own. What is kept is no operand, and neither is
    what is sent behind another token. -/
theorem exists_positions_step {stack : List Token} (hheld : stack.filter isInside = held.map token)
    (hstack : ∀ s ∈ stack, s.isOperand = false) (x : α) :
    ∃ out kept : List α,
      (step stack (token x)).1 = out.map (fun x => (token x).canonical) ∧
      (step stack (token x)).2.filter isInside = kept.map token ∧
      (out ++ kept).Perm (contributed token x ++ held) ∧
      out.Pairwise fun _ b => (token b).isOperand = false := by
  have hheldop := not_isOperand_of_map_eq hheld hstack
  have hperm := step_perm stack (token x)
  rw [hheld, ← map_contributed, ← map_canonical_of_not_isOperand hheldop,
    ← List.map_append] at hperm
  obtain ⟨out, kept, hout, hkept, hpositions⟩ := exists_of_perm_map hperm
  have hkeptop : ∀ y ∈ kept, (token y).isOperand = false := by
    intro y hy
    have hmem : (token y).canonical ∈ (step stack (token x)).2.filter isInside :=
      hkept ▸ List.mem_map_of_mem hy
    rw [← isOperand_canonical]
    exact not_isOperand_of_mem_step hstack _ (List.mem_filter.1 hmem).1
  refine ⟨out, kept, hout, by rw [hkept, map_canonical_of_not_isOperand hkeptop], hpositions, ?_⟩
  by_cases hx : (token x).isOperand = true
  · -- An operand is sent alone, so nothing is sent behind it.
    rw [step_of_isOperand stack hx] at hout
    obtain ⟨y, rfl⟩ := List.length_eq_one_iff.1 (by simpa using (congrArg List.length hout).symm)
    exact List.pairwise_singleton _ _
  · -- Otherwise nothing that is sent is an operand: no held position is one.
    have hout : ∀ y ∈ out, (token y).isOperand = false := by
      intro y hy
      rcases List.mem_append.1 (hpositions.subset (List.mem_append_left kept hy)) with hy | hy
      · rw [mem_contributed hy]
        exact Bool.eq_false_iff.2 hx
      · exact hheldop y hy
    exact List.pairwise_of_forall_mem_list fun _ _ b hb => hout b hb

/-- The output is the tokens of certain positions: those that are held at the beginning and
    those of the list, parentheses aside. Whatever comes before an operand there stood
    before it. -/
theorem exists_order_convert {stack : List Token} (hheld : stack.filter isInside = held.map token)
    (hstack : ∀ s ∈ stack, s.isOperand = false) (hbefore : ∀ y ∈ held, ∀ x ∈ xs, r y x)
    (hxs : xs.Pairwise r) :
    ∃ order : List α,
      convert stack (xs.map token) = order.map (fun x => (token x).canonical) ∧
      order.Perm (held ++ xs.filter fun x => !(token x).isParenthesis) ∧
      order.Pairwise fun a b => (token b).isOperand = true → r a b := by
  induction xs generalizing stack held with
  | nil =>
    have hheldop : ∀ y ∈ held, (token y).isOperand = false :=
      not_isOperand_of_map_eq hheld hstack
    refine ⟨held, ?_, ?_, ?_⟩
    · rw [List.map_nil, convert_nil, hheld, map_canonical_of_not_isOperand hheldop]
    · rw [List.filter_nil, List.append_nil]
    · refine List.pairwise_of_forall_mem_list fun a _ b hb hop => ?_
      rw [hheldop b hb] at hop
      cases hop
  | cons x xs ih =>
    obtain ⟨hx, hxs⟩ := List.pairwise_cons.1 hxs
    obtain ⟨out, kept, hout, hkept, hperm, hsent⟩ := exists_positions_step hheld hstack x
    have hstack' := not_isOperand_of_mem_step (t := token x) hstack
    -- What was held or read so far stands before all that is still to come.
    have hearlier : ∀ y ∈ out ++ kept, ∀ z ∈ xs, r y z := by
      intro y hy z hz
      rcases List.mem_append.1 (hperm.subset hy) with hy | hy
      · rw [mem_contributed hy]
        exact hx z hz
      · exact hbefore y hy z (List.mem_cons_of_mem x hz)
    obtain ⟨order, horder, hrest, hpair⟩ := ih hkept hstack'
      (fun y hy => hearlier y (List.mem_append_right out hy)) hxs
    refine ⟨out ++ order, ?_, ?_, ?_⟩
    · rw [List.map_cons, convert_cons, hout, horder, List.map_append]
    · have hfront : (out ++ kept).Perm (held ++ contributed token x) :=
        hperm.trans List.perm_append_comm
      rw [← List.singleton_append, List.filter_append, ← List.append_assoc]
      refine (hrest.append_left out).trans ?_
      rw [← List.append_assoc]
      exact hfront.append_right _
    · refine List.pairwise_append.2 ⟨hsent.imp ?_, hpair, ?_⟩
      · intro a b hb hop
        rw [hb] at hop
        cases hop
      · intro a ha b hb hop
        -- An operand of the rest is not one that is kept, so it is still to come.
        rcases List.mem_append.1 (hrest.subset hb) with hb | hb
        · rw [not_isOperand_of_map_eq hkept hstack' b hb] at hop
          cases hop
        · exact hearlier a (List.mem_append_left kept ha) b (List.mem_filter.1 hb).1

end Polish

open Polish

variable {ts : List Token}

/-! ## The order of a list -/

/-- The tokens of a list that pass a test are those of the positions that pass it. -/
theorem filter_eq_map_get (p : Token → Bool) (ts : List Token) :
    ts.filter p = ((List.finRange ts.length).filter fun i => p (ts.get i)).map ts.get := by
  conv_lhs => rw [← List.map_get_finRange ts, List.filter_map]
  rfl

theorem Token.not_isParenthesis_of_isOperand {t : Token} (h : t.isOperand = true) :
    t.isParenthesis = false := by
  cases hkind : t.kind <;> simp_all [isOperand, isParenthesis]

/-- Positions in an order in which whatever comes before an operand stood before it have the
    operands as they stood. -/
theorem filter_isOperand_order {order : List (Fin ts.length)}
    (hperm : order.Perm ((List.finRange ts.length).filter fun i => !(ts.get i).isParenthesis))
    (hpair : order.Pairwise fun i j => (ts.get j).isOperand = true → i < j) :
    (order.filter fun i => (ts.get i).isOperand) =
      (List.finRange ts.length).filter fun i => (ts.get i).isOperand := by
  have hsorted : (order.filter fun i => (ts.get i).isOperand).Pairwise (· < ·) :=
    (hpair.filter _).imp_of_mem fun _ hj hlt => hlt (List.mem_filter.1 hj).2
  have hpositions : (order.filter fun i => (ts.get i).isOperand).Perm
      ((List.finRange ts.length).filter fun i => (ts.get i).isOperand) := by
    have hfilter := hperm.filter fun i => (ts.get i).isOperand
    rw [List.filter_filter] at hfilter
    refine hfilter.trans (.of_eq (List.filter_congr fun i _ => ?_))
    cases hop : (ts.get i).isOperand with
    | false => rfl
    | true => rw [Token.not_isParenthesis_of_isOperand hop]; rfl
  exact hpositions.eq_of_pairwise (fun i j _ _ hij hji => absurd hij (lt_asymm hji)) hsorted
    ((List.pairwise_lt_finRange _).filter _)

theorem ofTokens?_eq_ok (h : ∀ t ∈ ts, t.kind = .number → t.value.isSome = true) :
    ofTokens? ts = .ok (ofTokens ts) := by
  have hnone : ts.any lacksValue = false := by
    rw [List.any_eq_false]
    intro t ht hlacks
    simp only [lacksValue, Bool.and_eq_true, beq_iff_eq] at hlacks
    have hsome := h t ht hlacks.1
    rw [Option.isNone_iff_eq_none.1 hlacks.2] at hsome
    cases hsome
  rw [ofTokens?, hnone]
  rfl

/-- Reverse Polish order loses, duplicates and invents nothing, whatever the list. It has no
    parentheses; its tokens are the others of the list, each number under the general
    notation of its number; its operands are those of the list, in their order; and it is
    the tokens of the positions of the list in an order in which whatever comes before
    an operand stood before it. So no operator and no function comes before an operand that
    preceded it. -/
theorem exists_order_ofTokens? (h : ∀ t ∈ ts, t.kind = .number → t.value.isSome = true) :
    ∃ rpn : List Token, ofTokens? ts = .ok rpn ∧
      (∀ t ∈ rpn, t.kind ≠ .leftParen ∧ t.kind ≠ .rightParen) ∧
      rpn.Perm ((ts.filter fun t => !t.isParenthesis).map Token.canonical) ∧
      rpn.filter Token.isOperand = (ts.filter Token.isOperand).map Token.canonical ∧
      ∃ order : List (Fin ts.length),
        rpn = order.map (fun i => (ts.get i).canonical) ∧
        order.Perm ((List.finRange ts.length).filter fun i => !(ts.get i).isParenthesis) ∧
        order.Pairwise fun i j => (ts.get j).isOperand = true → i < j := by
  have hnothing : List.filter isInside [] = List.map ts.get [] := rfl
  obtain ⟨order, hmap, hperm, hpair⟩ := exists_order_convert hnothing (List.forall_mem_nil _)
    (List.forall_mem_nil _) (List.pairwise_lt_finRange ts.length)
  rw [List.map_get_finRange] at hmap
  rw [List.nil_append] at hperm
  refine ⟨ofTokens ts, ofTokens?_eq_ok h, ?_, ?_, ?_, order, hmap, hperm, hpair⟩
  · intro t ht
    obtain ⟨s, -, hs⟩ := mem_ofTokens_iff.1 ht
    exact (kind_of_mem_contribution hs).2
  · rw [ofTokens, hmap, filter_eq_map_get _ ts, List.map_map]
    exact hperm.map _
  · rw [ofTokens, hmap, filter_eq_map_get Token.isOperand ts, List.map_map, List.filter_map,
      ← filter_isOperand_order hperm hpair]
    simp only [Function.comp_def, isOperand_canonical]

open Token in
/-- The operands of `x)+(2 f y`, which is no formula, keep their order. -/
theorem exists_order_ofTokens?_unmatched :
    ∃ rpn : List Token,
      ofTokens? [reference ['x'], rightParen, ofOperator (.binary .add), leftParen,
          number ['2', '.', '0'] 2.0, function ['f'], reference ['y']] = .ok rpn ∧
        rpn.filter isOperand =
          [reference ['x'], number ['2'] 2.0, reference ['y']] := by
  have hvalue : ∀ t ∈ [reference ['x'], rightParen, ofOperator (.binary .add), leftParen,
      number ['2', '.', '0'] 2.0, function ['f'], reference ['y']],
      t.kind = .number → t.value.isSome = true := by
    simp [reference, rightParen, ofOperator, leftParen, number, function]
  have hname : formatNumber 2.0 = ['2'] := by decide +kernel
  obtain ⟨rpn, hrpn, -, -, hoperands, -⟩ := exists_order_ofTokens? hvalue
  rw [← hname]
  exact ⟨rpn, hrpn, hoperands⟩

end Formula
