/-
  Formula.Proofs.Polish.Faithful

  Reverse Polish order determines the syntax tree.

    * `Token.label t` — the kind and the name of `t`, which is all that tokens are compared by.
    * `Tree.push role? stack x` — one symbol of a postorder read back onto a stack of trees: an
      operand becomes a tree of its own, an operator or a function takes its operands from
      the top.
    * `Tree.built role? xs` — the trees that a list of symbols is read back as.
    * `Tree.Fits role? t` — the symbols of `t` have the roles of their nodes.
    * `Tree.operands t` — the operands of `t` from left to right.

  `Tree.built_postorder` says that reading back undoes the postorder, whatever the symbols
  are. For labels this gives the tree up to what the general notation of numbers leaves of
  it. A token list determines more than its reverse Polish order does, namely its operands
  as they are written, and with them the whole tree (`Derives.tree_unique`).
-/
import Mathlib.Data.List.Forall2
import Formula.Proofs.Polish.Order
import Formula.Proofs.Polish.Postorder

namespace Formula

/-! ## Labels -/

/-- What tokens are compared by. -/
def Token.label (t : Token) : Kind × Text :=
  (t.kind, t.name)

/-- The role in the grammar that a label stands for. An operator is known by its name. -/
def Role.ofLabel? : Kind × Text → Option Role
  | (.number, _) => some .number
  | (.reference, _) => some .reference
  | (.function, _) => some .function
  | (.leftParen, _) => some .opening
  | (.rightParen, _) => some .closing
  | (.operator, name) => (Operator.ofName? name).map .operator

theorem Token.sameAs_iff_label {s t : Token} : s.sameAs t = true ↔ s.label = t.label := by
  rw [sameAs_iff, label, label, Prod.mk.injEq]

/-- Two lists agree token by token exactly if they have the same labels. -/
theorem Token.forall₂_sameAs_iff {ts us : List Token} :
    List.Forall₂ (fun s t => s.sameAs t = true) ts us ↔ ts.map label = us.map label := by
  simp only [sameAs_iff_label]
  rw [← List.forall₂_eq_eq_eq, List.forall₂_map_left_iff, List.forall₂_map_right_iff]

/-- The label of a token with a role stands for that role. -/
theorem Token.Is.ofLabel?_label {r : Role} {t : Token} (h : Token.Is r t) :
    Role.ofLabel? t.label = some r := by
  have hkind := h.kind_eq
  cases r with
  | operator op =>
    have hname : t.name = op.name := Token.name_of_operator? h
    rw [Token.label, hkind, hname]
    show (Operator.ofName? op.name).map Role.operator = some (.operator op)
    rw [Operator.ofName?_name]
    rfl
  | _ =>
    rw [Token.label, hkind]
    rfl

/-! ## Trees read back -/

namespace Tree

variable {σ τ : Type} {role? : σ → Option Role} {t u : Tree σ}

/-- The symbols of a tree have the roles of their nodes. -/
def Fits (role? : σ → Option Role) : Tree σ → Prop
  | number n => role? n = some .number
  | reference n => role? n = some .reference
  | negation o t => role? o = some (.operator .negation) ∧ t.Fits role?
  | binary o t u =>
    (∃ op, role? o = some (.operator (.binary op))) ∧ t.Fits role? ∧ u.Fits role?
  | call f t => role? f = some .function ∧ t.Fits role?

/-- One symbol read back onto a stack of trees, the most recent one first. A symbol without
    a role or without its operands is left out. -/
def push (role? : σ → Option Role) (stack : List (Tree σ)) (x : σ) : List (Tree σ) :=
  match role? x, stack with
  | some .number, stack => number x :: stack
  | some .reference, stack => reference x :: stack
  | some (.operator .negation), t :: stack => negation x t :: stack
  | some (.operator (.binary _)), u :: t :: stack => binary x t u :: stack
  | some .function, t :: stack => call x t :: stack
  | _, stack => stack

/-- The trees that a list of symbols is read back as. -/
def built (role? : σ → Option Role) (xs : List σ) : List (Tree σ) :=
  xs.foldl (push role?) []

/-- Reading a postorder back puts its tree on top of the stack. -/
theorem foldl_push_postorder (h : t.Fits role?) (stack : List (Tree σ)) :
    t.postorder.foldl (push role?) stack = t :: stack := by
  induction t generalizing stack with
  | number n =>
    have hn : role? n = some .number := h
    simp only [postorder, List.foldl_cons, List.foldl_nil, push, hn]
  | reference n =>
    have hn : role? n = some .reference := h
    simp only [postorder, List.foldl_cons, List.foldl_nil, push, hn]
  | negation o t ih =>
    obtain ⟨ho, ht⟩ := h
    rw [postorder, List.foldl_append, ih ht]
    simp only [List.foldl_cons, List.foldl_nil, push, ho]
  | binary o t u iht ihu =>
    obtain ⟨⟨op, ho⟩, ht, hu⟩ := h
    rw [postorder, List.foldl_append, List.foldl_append, iht ht, ihu hu]
    simp only [List.foldl_cons, List.foldl_nil, push, ho]
  | call f t ih =>
    obtain ⟨hf, ht⟩ := h
    rw [postorder, List.foldl_append, ih ht]
    simp only [List.foldl_cons, List.foldl_nil, push, hf]

/-- A postorder is read back as its tree. -/
theorem built_postorder (h : t.Fits role?) : built role? t.postorder = [t] :=
  foldl_push_postorder h []

/-- Trees with the same postorder are the same. -/
theorem eq_of_postorder (ht : t.Fits role?) (hu : u.Fits role?)
    (h : t.postorder = u.postorder) : t = u := by
  have hbuilt : [t] = [u] := by
    rw [← built_postorder ht, ← built_postorder hu, h]
  exact List.singleton_inj.1 hbuilt

/-! ## Symbols replaced -/

theorem postorder_map (g : σ → τ) (t : Tree σ) : (t.map g).postorder = t.postorder.map g := by
  induction t with
  | number n => rfl
  | reference n => rfl
  | negation o t ih => simp only [map, postorder, ih, List.map_append, List.map_singleton]
  | binary o t u iht ihu =>
    simp only [map, postorder, iht, ihu, List.map_append, List.map_singleton]
  | call f t ih => simp only [map, postorder, ih, List.map_append, List.map_singleton]

theorem Fits.map {role? : τ → Option Role} {g : σ → τ} (h : t.Fits fun x => role? (g x)) :
    (t.map g).Fits role? := by
  induction t with
  | number n => exact h
  | reference n => exact h
  | negation o t ih => exact ⟨h.1, ih h.2⟩
  | binary o t u iht ihu => exact ⟨h.1, iht h.2.1, ihu h.2.2⟩
  | call f t ih => exact ⟨h.1, ih h.2⟩

/-! ## Operands -/

/-- The operands of a tree from left to right. -/
def operands : Tree σ → List σ
  | number n => [n]
  | reference n => [n]
  | negation _ t => t.operands
  | binary _ t u => t.operands ++ u.operands
  | call _ t => t.operands

theorem length_operands_canonical (t : Tree Token) :
    t.canonical.operands.length = t.operands.length := by
  induction t with
  | number n => rfl
  | reference n => rfl
  | negation o t ih => exact ih
  | binary o t u iht ihu => simp only [canonical, operands, List.length_append, iht, ihu]
  | call f t ih => exact ih

/-- The general notation forgets of a tree only how its numbers are written. -/
theorem eq_of_canonical {t u : Tree Token} (h : t.canonical = u.canonical)
    (hoperands : t.operands = u.operands) : t = u := by
  induction t generalizing u with
  | number n =>
    cases u with
    | number m => rw [List.singleton_inj.1 hoperands]
    | _ => simp [canonical] at h
  | reference n =>
    cases u with
    | reference m => rw [List.singleton_inj.1 hoperands]
    | _ => simp [canonical] at h
  | negation o t ih =>
    cases u with
    | negation o' t' =>
      obtain ⟨rfl, ht⟩ := Tree.negation.inj h
      rw [ih ht hoperands]
    | _ => simp [canonical] at h
  | binary o t u iht ihu =>
    cases u with
    | binary o' t' u' =>
      obtain ⟨rfl, ht, hu⟩ := Tree.binary.inj h
      -- The left operands have as many operands as each other, so the lists split alike.
      have hlength : t.operands.length = t'.operands.length := by
        rw [← length_operands_canonical, ht, length_operands_canonical]
      obtain ⟨hleft, hright⟩ := List.append_inj hoperands hlength
      rw [iht ht hleft, ihu hu hright]
    | _ => simp [canonical] at h
  | call f t ih =>
    cases u with
    | call f' t' =>
      obtain ⟨rfl, ht⟩ := Tree.call.inj h
      rw [ih ht hoperands]
    | _ => simp [canonical] at h

end Tree

/-! ## Formulas -/

variable {level : Level} {ts us : List Token} {tree tree' : Tree Token}

/-- The tokens of a formula have the roles of their nodes, also under the general notation. -/
theorem Writes.fits_canonical (h : Writes Token.Is ts tree) :
    tree.canonical.Fits fun t => Role.ofLabel? t.label := by
  induction h with
  | @number n hn =>
    show Role.ofLabel? n.canonical.label = some .number
    rw [Token.label, Token.kind_canonical, hn.1]
    rfl
  | @reference n hn => exact Token.Is.ofLabel?_label (r := .reference) hn
  | negation ho _ ih => exact ⟨ho.ofLabel?_label, ih⟩
  | binary _ ho _ iht ihu => exact ⟨⟨_, ho.ofLabel?_label⟩, iht, ihu⟩
  | group _ _ _ ih => exact ih
  | @call xs f l r t hf _ _ _ ih => exact ⟨Token.Is.ofLabel?_label (r := .function) hf, ih⟩

/-- The operands of a formula are those of its tree, in their order. -/
theorem Writes.filter_isOperand (h : Writes Token.Is ts tree) :
    ts.filter Token.isOperand = tree.operands := by
  have hnone : ∀ {t : Token} {r : Role}, Token.Is r t →
      (r.kind == .number || r.kind == .reference) = false → ¬ t.isOperand = true := by
    intro t r ht hr
    rw [← ht.kind_eq] at hr
    rw [Token.isOperand, hr]
    decide
  induction h with
  | @number n hn =>
    have hkind : n.kind = .number := hn.1
    exact List.filter_eq_self.2 (List.forall_mem_singleton.2 (by simp [Token.isOperand, hkind]))
  | @reference n hn =>
    have hkind : n.kind = .reference := hn
    exact List.filter_eq_self.2 (List.forall_mem_singleton.2 (by simp [Token.isOperand, hkind]))
  | negation ho _ ih => rw [List.filter_cons_of_neg (hnone ho rfl), ih, Tree.operands]
  | binary _ ho _ iht ihu =>
    rw [List.filter_append, iht, List.filter_cons_of_neg (hnone ho rfl), ihu,
      Tree.operands]
  | @group xs l r t hl _ hr ih =>
    have hleft := hnone (r := .opening) hl rfl
    have hright := hnone (r := .closing) hr rfl
    rw [List.filter_cons_of_neg hleft, List.filter_append, ih, List.filter_cons_of_neg hright,
      List.filter_nil, List.append_nil]
  | @call xs f l r t hf hl _ hr ih =>
    have hfunction := hnone (r := .function) hf rfl
    have hleft := hnone (r := .opening) hl rfl
    have hright := hnone (r := .closing) hr rfl
    rw [List.filter_cons_of_neg hfunction, List.filter_cons_of_neg hleft, List.filter_append, ih,
      List.filter_cons_of_neg hright, List.filter_nil, List.append_nil, Tree.operands]

/-- A token list is derived with one tree at most. -/
theorem Derives.tree_unique (h : Derives Token.Is .sum ts tree)
    (h' : Derives Token.Is .sum ts tree') : tree = tree' := by
  have hpostorder : tree.canonical.postorder = tree'.canonical.postorder := by
    rw [← h.ofTokens_eq, ← h'.ofTokens_eq]
  have hcanonical : tree.canonical = tree'.canonical :=
    Tree.eq_of_postorder h.writes.fits_canonical h'.writes.fits_canonical hpostorder
  have hoperands : tree.operands = tree'.operands := by
    rw [← h.writes.filter_isOperand, ← h'.writes.filter_isOperand]
  exact Tree.eq_of_canonical hcanonical hoperands

/-- The reverse Polish orders of two formulas have the same labels exactly if their trees
    have. -/
theorem Derives.map_label_ofTokens_iff (h : Derives Token.Is .sum ts tree)
    (h' : Derives Token.Is .sum us tree') :
    (Polish.ofTokens ts).map Token.label = (Polish.ofTokens us).map Token.label ↔
      tree.canonical.map Token.label = tree'.canonical.map Token.label := by
  rw [h.ofTokens_eq, h'.ofTokens_eq, ← Tree.postorder_map, ← Tree.postorder_map]
  constructor
  · exact Tree.eq_of_postorder h.writes.fits_canonical.map h'.writes.fits_canonical.map
  · exact congrArg Tree.postorder

/-- Reverse Polish order is a faithful code of the structure of formulas. Two formulas are
    converted without a failure, and the results agree token by token exactly if the syntax
    trees of the two are the same, symbols compared by kind and name, and numbers by their
    general notation. Parentheses leave no trace in a tree, so redundant ones do not matter. A
    token list has no two different trees. -/
theorem ofTokens?_sameAs_iff (h : Derives Token.Is .sum ts tree)
    (h' : Derives Token.Is .sum us tree') :
    (∃ rpn rpn' : List Token, Polish.ofTokens? ts = .ok rpn ∧ Polish.ofTokens? us = .ok rpn' ∧
      (List.Forall₂ (fun s t => s.sameAs t = true) rpn rpn' ↔
        tree.canonical.map Token.label = tree'.canonical.map Token.label)) ∧
      (ts = us → tree = tree') := by
  have hts : Polish.ofTokens? ts = .ok (Polish.ofTokens ts) := by
    rw [Polish.ofTokens?, h.not_lacksValue]
    rfl
  have hus : Polish.ofTokens? us = .ok (Polish.ofTokens us) := by
    rw [Polish.ofTokens?, h'.not_lacksValue]
    rfl
  constructor
  · refine ⟨_, _, hts, hus, ?_⟩
    rw [Token.forall₂_sameAs_iff]
    exact h.map_label_ofTokens_iff h'
  · rintro rfl
    exact h.tree_unique h'

open Token in
/-- The formulas `a-(b-c)` and `a-b-c` have different reverse Polish orders, and so have `2-c`
    and `3-c`; `2.0-(c)` has the same one as `2-c`. -/
theorem ofTokens?_sameAs_iff_grouping :
    (∃ rpn rpn' : List Token,
      Polish.ofTokens? [reference ['a'], ofOperator (.binary .subtract), leftParen,
          reference ['b'], ofOperator (.binary .subtract), reference ['c'], rightParen] =
        .ok rpn ∧
      Polish.ofTokens? [reference ['a'], ofOperator (.binary .subtract), reference ['b'],
          ofOperator (.binary .subtract), reference ['c']] = .ok rpn' ∧
      ¬ List.Forall₂ (fun s t => s.sameAs t = true) rpn rpn') ∧
    (∃ rpn rpn' : List Token,
      Polish.ofTokens? [number ['2'] 2.0, ofOperator (.binary .subtract), reference ['c']] =
        .ok rpn ∧
      Polish.ofTokens? [number ['3'] 3.0, ofOperator (.binary .subtract), reference ['c']] =
        .ok rpn' ∧
      ¬ List.Forall₂ (fun s t => s.sameAs t = true) rpn rpn') ∧
    ∃ rpn rpn' : List Token,
      Polish.ofTokens? [number ['2'] 2.0, ofOperator (.binary .subtract), reference ['c']] =
        .ok rpn ∧
      Polish.ofTokens? [number ['2', '.', '0'] 2.0, ofOperator (.binary .subtract), leftParen,
        reference ['c'], rightParen] = .ok rpn' ∧
      List.Forall₂ (fun s t => s.sameAs t = true) rpn rpn' := by
  have href : ∀ name, Derives Token.Is .atom [reference name] (.reference (reference name)) :=
    fun _ => .reference rfl
  have hnumber : ∀ name x, Derives Token.Is .atom [number name x] (.number (number name x)) :=
    fun _ _ => .number ⟨rfl, rfl⟩
  -- A difference of an atom or of a difference, and an atom.
  have hminus : ∀ {xs ys : List Token} {t u : Tree Token}, Derives Token.Is .sum xs t →
      Derives Token.Is .atom ys u → Derives Token.Is .sum
        (xs ++ ofOperator (.binary .subtract) :: ys)
        (.binary (ofOperator (.binary .subtract)) t u) :=
    fun ht hu => .additive ht (.inr rfl) rfl (.ofFactor (.ofAtom hu))
  have hsum : ∀ {xs : List Token} {t : Tree Token}, Derives Token.Is .atom xs t →
      Derives Token.Is .sum xs t :=
    fun h => .ofProduct (.ofFactor (.ofAtom h))
  have hgroup : ∀ {xs : List Token} {t : Tree Token}, Derives Token.Is .sum xs t →
      Derives Token.Is .atom (leftParen :: (xs ++ [rightParen])) t :=
    fun h => .group rfl h rfl
  refine ⟨?_, ?_, ?_⟩
  · obtain ⟨⟨rpn, rpn', hrpn, hrpn', hiff⟩, -⟩ := ofTokens?_sameAs_iff
      (hminus (hsum (href ['a'])) (hgroup (hminus (hsum (href ['b'])) (href ['c']))))
      (hminus (hminus (hsum (href ['a'])) (href ['b'])) (href ['c']))
    refine ⟨rpn, rpn', hrpn, hrpn', fun hsame => ?_⟩
    -- The left operands are a variable and a difference.
    obtain ⟨-, hleft, -⟩ := Tree.binary.inj (hiff.1 hsame)
    cases hleft
  · obtain ⟨⟨rpn, rpn', hrpn, hrpn', hiff⟩, -⟩ := ofTokens?_sameAs_iff
      (hminus (hsum (hnumber ['2'] 2.0)) (href ['c']))
      (hminus (hsum (hnumber ['3'] 3.0)) (href ['c']))
    refine ⟨rpn, rpn', hrpn, hrpn', fun hsame => ?_⟩
    -- The left operands are numbers that are written differently.
    obtain ⟨-, hleft, -⟩ := Tree.binary.inj (hiff.1 hsame)
    have hname : formatNumber 2.0 = formatNumber 3.0 :=
      congrArg Prod.snd (Tree.number.inj hleft)
    exact absurd hname (by decide +kernel)
  · obtain ⟨⟨rpn, rpn', hrpn, hrpn', hiff⟩, -⟩ := ofTokens?_sameAs_iff
      (hminus (hsum (hnumber ['2'] 2.0)) (href ['c']))
      (hminus (hsum (hnumber ['2', '.', '0'] 2.0)) (hgroup (hsum (href ['c']))))
    exact ⟨rpn, rpn', hrpn, hrpn', hiff.2 rfl⟩

end Formula
