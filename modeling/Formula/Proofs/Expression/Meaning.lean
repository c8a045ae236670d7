/-
  Formula.Proofs.Expression.Meaning

  The number of an expression is the value of the syntax tree of its text.

    * `Piece.operation p x y` — the operation on floats that the sign `p` stands for between
      `x` and `y`.
    * `Piece.meaning table scope` — what the pieces of a text mean: a number what it is
      read as, a variable what the first binding of its name has, an operator its
      operation, a function the answer of the first function of its name, where arithmetic
      failures are no number.

  The meaning of a text is said without the machine that computes it: `calculate_name_eq`
  says that the operators of the machine are these operations. The text may have blanks in
  it anywhere. `Writes.value_map_token` says that reading pieces as tokens keeps the value
  of a tree; the rest is the cut of the text, the order of the tokens and the run of the
  machine, one after the other.
-/
import Formula.Proofs.Machine.Failure
import Formula.Proofs.Machine.Value
import Formula.Proofs.Token.Spelling

namespace Formula

namespace Piece

/-- The exponents that have an operation of their own, each with that operation. -/
def shortcuts : List (Float × (Float → Float)) :=
  [(-1.0, fun x => 1.0 / x), (0.0, fun _ => 1.0), (0.5, Float.sqrt), (1.0, fun x => x),
    (2.0, fun x => x * x)]

/-- One number to the power of another. -/
def raise (x y : Float) : Float :=
  match shortcuts.find? fun shortcut => y == shortcut.1 with
  | some shortcut => shortcut.2 x
  | none => Float.pow x y

/-- The operation on floats that a sign stands for between two operands. -/
def operation : Text → Float → Float → Float
  | ['+'], x, y => x + y
  | ['-'], x, y => x - y
  | ['*'], x, y => x * y
  | ['/'], x, y => x / y
  | ['^'], x, y => raise x y
  | _, _, _ => notANumber

/-- What the pieces of a text mean. -/
def meaning (table : List Function) (scope : Scope) : Meaning Text where
  number p :=
    match readNumber p with
    | .ok (some x) => x
    | _ => notANumber
  reference p := ((scope.find? fun b => b.name = p).map Binding.value).getD notANumber
  operation := operation
  call p x :=
    match table.find? fun f => f.name = p with
    | some f => f.contain.value (some x)
    | none => .ok notANumber

end Piece

variable {table : List Function} {scope : Scope} {ps : List Text} {tree : Tree Text}
  {p text : Text} {r : Role}

/-! ## Operations and functions -/

theorem power_eq_raise (x y : Float) : power x y = Piece.raise x y := by
  unfold power Piece.raise Piece.shortcuts
  simp only [List.find?_cons, List.find?_nil]
  -- The exponents are compared in the order of the table.
  cases y == -1.0 <;> cases y == 0.0 <;> cases y == 0.5 <;> cases y == 1.0 <;>
    cases y == 2.0 <;> rfl

/-- The operators of the machine are the operations that their signs stand for. -/
theorem calculate_name_eq (op : BinaryOperator) (x y : Float) :
    calculate x y (Operator.binary op).name = Piece.operation (Operator.binary op).name x y := by
  rw [calculate_name]
  cases op with
  | power => exact power_eq_raise x y
  | _ => rfl

/-- The machine gets of a function what the function means. -/
theorem Machine.answer_eq_call (table : List Function) (scope : Scope) (p : Text) :
    Machine.answer table p = (Piece.meaning table scope).call p := by
  funext x
  simp only [Machine.answer, Piece.meaning, Function.find?]
  cases table.find? fun f => f.name = p with
  | none => rfl
  | some f => exact (Machine.value_contain f (some x)).symm

/-! ## Tokens of pieces -/

/-- No binding of another variable answers for a name without delimiters: that of an opposite
    has one. -/
theorem Scope.lookup?_eq_find?_of_not_isDelimiter (hp : ∀ c ∈ p, isDelimiter c = false)
    (scope : Scope) : scope.lookup? p = (scope.find? fun b => b.name = p).map Binding.value := by
  apply Scope.lookup?_eq_find?
  rintro n rfl
  exact absurd (hp '~' (List.mem_cons_self ..)) (by decide)

theorem Piece.IsName.lookup?_eq_find? (hp : Piece.IsName p) (scope : Scope) :
    scope.lookup? p = (scope.find? fun b => b.name = p).map Binding.value :=
  Scope.lookup?_eq_find?_of_not_isDelimiter hp.not_delimiter scope

/-- The token of a piece resolves if the piece, where it is a variable, is bound. -/
theorem Piece.Is.resolves (hdelimiter : ∀ c, isDelimiter c = true → [c] ∉ Function.names table)
    (h : Piece.Is table r p) (hbound : Piece.Is table .reference p → ∃ b ∈ scope, b.name = p) :
    Machine.Resolves table scope (Piece.token table p) := by
  have htoken := h.token hdelimiter
  constructor
  · intro hkind
    obtain rfl := Role.kind_eq_reference.1 (htoken.kind_eq.symm.trans hkind)
    obtain ⟨b, hb, hname⟩ := hbound h
    have hfind : (scope.find? fun b => b.name = p).isSome = true :=
      List.find?_isSome.2 ⟨b, hb, decide_eq_true hname⟩
    rw [Piece.name_token, h.1.lookup?_eq_find?, Option.isSome_map]
    exact hfind
  · intro hkind
    obtain rfl := Role.kind_eq_function.1 (htoken.kind_eq.symm.trans hkind)
    rw [Piece.name_token]
    exact h.2

/-- Reading pieces as tokens keeps the value of a tree. -/
theorem Writes.value_map_token (h : Writes (Piece.Is table) ps tree) :
    (tree.map (Piece.token table)).value (Machine.meaning table scope) =
      tree.value (Piece.meaning table scope) := by
  induction h with
  | @number p hp =>
    obtain ⟨-, x, hx⟩ := hp
    simp only [Tree.map, Tree.value, Machine.meaning, Piece.meaning, Piece.token_of_number hx, hx]
    rfl
  | @reference p hp =>
    simp only [Tree.map, Tree.value, Machine.meaning, Piece.meaning, Piece.name_token,
      hp.1.lookup?_eq_find?]
  | negation _ _ ih => rw [Tree.map, Tree.value, Tree.value, ih]
  | @binary ps qs o t u op _ ho _ iht ihu =>
    have hname : o = (Operator.binary op).name := ho
    have hoperation : (Machine.meaning table scope).operation (Piece.token table o) =
        (Piece.meaning table scope).operation o := by
      funext x y
      simp only [Machine.meaning, Piece.meaning, Piece.name_token, hname, calculate_name_eq]
    rw [Tree.map, Tree.value, Tree.value, iht, ihu, hoperation]
  | group _ _ _ ih => exact ih
  | @call ps f l r t _ _ _ _ ih =>
    have hcall : (Machine.meaning table scope).call (Piece.token table f) =
        (Piece.meaning table scope).call f := by
      rw [← Machine.answer_eq_call]
      simp only [Machine.meaning, Piece.name_token]
    rw [Tree.map, Tree.value, Tree.value, ih, hcall]

/-! ## Expressions -/

/-- A derived text, with or without blanks, is read as an expression of its tokens. -/
theorem Derives.exists_ofText? (h : Derives (Piece.Is table) .sum ps tree)
    (htext : Spread ps.flatten text) :
    ∃ e, Expression.ofText? table .dropped text = .ok e ∧ e.table = table ∧
      e.isBalanced = true ∧ e.tokens = ps.map (Piece.token table) := by
  -- The pieces have no blanks, so what is dropped is what was inserted.
  have hclean : Blanks.dropped.clean text = ps.flatten :=
    htext.withoutBlanks_eq h.writes.not_isBlank_flatten
  have hbalanced : isBalanced ps.flatten = true := by
    have hrest := h.writes.isBalancedFrom_flatten 0 []
    rw [List.append_nil, isBalancedFrom_nil] at hrest
    exact hrest
  have htokens : Token.ofText table ps.flatten = .ok (ps.map (Piece.token table)) := by
    rw [Token.ofText, if_pos hbalanced, h.writes.pieces_flatten, h.writes.ofPieces]
  refine ⟨⟨table, ps.flatten, _, htokens⟩, ?_, rfl, hbalanced, rfl⟩
  exact Expression.ofText?_eq_ok_iff.2 ⟨rfl, hclean.symm⟩

/-- The expression that a derived text writes has matching parentheses and is well formed,
    and its number is the value of the tree of the derivation. -/
theorem exists_evaluateWith_eq_value
    (hdelimiter : ∀ c, isDelimiter c = true → [c] ∉ Function.names table)
    (h : Derives (Piece.Is table) .sum ps tree) (htext : Spread ps.flatten text) :
    ∃ e, Expression.ofText? table .dropped text = .ok e ∧ e.isBalanced = true ∧
      e.isWellFormed = true ∧
      ∀ scope : Scope,
        (∀ p ∈ ps, Piece.Is table .reference p → ∃ b ∈ scope, b.name = p) →
        e.evaluateWith scope = tree.value (Piece.meaning table scope) := by
  obtain ⟨e, he, htable, hbalanced, htokens⟩ := h.exists_ofText? htext
  -- Tokens keep the roles of their pieces, so the derivation carries them along.
  have htoken : Derives Token.Is .sum e.tokens (tree.map (Piece.token table)) := by
    rw [htokens]
    exact h.map fun r p hp => hp.token hdelimiter
  refine ⟨e, he, hbalanced, ?_, ?_⟩
  · have harity : ∀ t ∈ e.tokens, t.HasTableArity := by
      intro t ht
      obtain ⟨p, -, hp⟩ := Token.exists_piece_of_mem_ofText e.tokens_ofText ht
      exact Token.hasTableArity_of_ofPiece hp
    have hcomplete : isComplete e.rpn = true := htoken.isComplete_ofTokens harity
    -- A list that is counted as one value has a token.
    have hne : e.rpn ≠ [] := by
      intro hnil
      rw [hnil] at hcomplete
      cases hcomplete
    rw [Expression.isWellFormed, hcomplete, List.isEmpty_eq_false_iff.2 hne]
    rfl
  · intro scope hbound
    have hresolves : ∀ t ∈ e.tokens, Machine.Resolves table scope t := by
      rw [htokens]
      intro t ht
      obtain ⟨p, hp, rfl⟩ := List.mem_map.1 ht
      obtain ⟨r, hr⟩ := h.writes.exists_role p hp
      exact hr.resolves hdelimiter (hbound p hp)
    rw [Expression.evaluateWith, htable, Expression.rpn, htoken.evaluate_ofTokens hresolves,
      h.writes.value_map_token]
    cases tree.value (Piece.meaning table scope) <;> rfl

/-- In `~x ^ 2 - f(( y ))` the negation reaches over the power, and the second binding of `x`
    does not count: the number is that of `-(3 ^ 2) - (0.5 + 1)`. -/
theorem exists_evaluateWith_negated_power :
    ∃ e, Expression.ofText? [.total ['f'] fun y => y + 1.0] .dropped
        "~x ^ 2 - f(( y ))".toList = .ok e ∧
      e.isWellFormed = true ∧
      e.evaluateWith [⟨['x'], 3.0⟩, ⟨['y'], 0.5⟩, ⟨['x'], 7.0⟩] = .ok (-10.5) := by
  have hx : Piece.Is [.total ['f'] fun y => y + 1.0] .reference ['x'] :=
    ⟨⟨by decide, List.forall_mem_singleton.2 rfl, List.forall_mem_singleton.2 rfl, rfl⟩, by decide⟩
  have hy : Piece.Is [.total ['f'] fun y => y + 1.0] .reference ['y'] :=
    ⟨⟨by decide, List.forall_mem_singleton.2 rfl, List.forall_mem_singleton.2 rfl, rfl⟩, by decide⟩
  have hf : Piece.Is [.total ['f'] fun y => y + 1.0] .function ['f'] :=
    ⟨⟨by decide, List.forall_mem_singleton.2 rfl, List.forall_mem_singleton.2 rfl, rfl⟩, by decide⟩
  have htwo : Piece.Is [.total ['f'] fun y => y + 1.0] .number ['2'] :=
    ⟨List.forall_mem_singleton.2 rfl, _, rfl⟩
  have hleft : Derives (Piece.Is [.total ['f'] fun y => y + 1.0]) .sum
      (['~'] :: ([['x']] ++ ['^'] :: [['2']])) _ :=
    .ofProduct (.ofFactor (.negation rfl
      (.power (.reference hx) rfl (.ofAtom (.number htwo)))))
  have hgroup : Derives (Piece.Is [.total ['f'] fun y => y + 1.0]) .atom
      (['('] :: ([['y']] ++ [[')']])) _ :=
    .group rfl (.ofProduct (.ofFactor (.ofAtom (.reference hy)))) rfl
  have hright : Derives (Piece.Is [.total ['f'] fun y => y + 1.0]) .product
      (['f'] :: ['('] :: ((['('] :: ([['y']] ++ [[')']])) ++ [[')']])) _ :=
    .ofFactor (.ofAtom (.call hf rfl (.ofProduct (.ofFactor (.ofAtom hgroup))) rfl))
  have hminus : Piece.Is [.total ['f'] fun y => y + 1.0] (.operator (.binary .subtract)) ['-'] :=
    rfl
  have htext : Spread "~x^2-f((y))".toList "~x ^ 2 - f(( y ))".toList :=
    .keep _ (.keep _ (.insert rfl (.keep _ (.insert rfl (.keep _ (.insert rfl (.keep _
      (.insert rfl (.keep _ (.keep _ (.keep _ (.insert rfl (.keep _ (.insert rfl (.keep _
        (.keep _ .nil))))))))))))))))
  have hdelimiter : ∀ c, isDelimiter c = true →
      [c] ∉ Function.names [.total ['f'] fun y => y + 1.0] := by
    intro c hc hmem
    obtain rfl : c = 'f' := by
      simpa [Function.names, Function.total, Function.ofOperation] using hmem
    exact absurd hc (by decide)
  obtain ⟨e, he, -, hwell, hvalue⟩ := exists_evaluateWith_eq_value hdelimiter
    (.additive hleft (.inr rfl) hminus hright) htext
  have hnumber : (-1.0) * Piece.raise 3.0 (Numeral.toFloat (.decimal false 2 0)) - (0.5 + 1.0) =
      -10.5 := by
    decide +kernel
  refine ⟨e, he, hwell, (hvalue _ ?_).trans (congrArg Except.ok hnumber)⟩
  -- The pieces that are names, and the delimiters, which are none.
  have hpieces : ∀ p ∈ (['~'] :: ([['x']] ++ ['^'] :: [['2']])) ++ ['-'] ::
      (['f'] :: ['('] :: ((['('] :: ([['y']] ++ [[')']])) ++ [[')']])),
      p = ['x'] ∨ p = ['y'] ∨ p = ['2'] ∨ p = ['f'] ∨ p.any isDelimiter = true := by
    decide
  intro p hp href
  rcases hpieces p hp with rfl | rfl | rfl | rfl | hany
  · exact ⟨⟨['x'], 3.0⟩, List.mem_cons_self .., rfl⟩
  · exact ⟨⟨['y'], 0.5⟩, List.mem_cons_of_mem _ (List.mem_cons_self ..), rfl⟩
  · cases href.1.not_number
  · exact absurd (by decide) href.2
  · obtain ⟨c, hc, hdelim⟩ := List.any_eq_true.1 hany
    rw [href.1.not_delimiter c hc] at hdelim
    cases hdelim

end Formula
