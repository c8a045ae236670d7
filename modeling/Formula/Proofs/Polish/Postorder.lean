/-
  Formula.Proofs.Polish.Postorder

  Reverse Polish order is the postorder of the syntax tree.

    * `Token.Is r t` — the token `t` has the role `r` in the grammar. A number token
      counts as a number if it carries one.
    * `Tree.canonical` — a tree with its number tokens under their general notation.
    * `Reads stack ts held rpn` — from `stack`, the tokens `ts` leave `held` on top of it,
      and what they send to the output followed by `held` is `rpn`. This is the
      invariant: what is pending above the stack is what is missing from `rpn`.
    * `Level.rank`, `Level.Rests` — what a level leaves pending binds at least as tightly
      as its rank, and it starts on a stack from which no operator of that rank takes
      anything, with no function on top that a parenthesis could complete.

  `Derives.reads` is the run of one derivation on any stack it rests on;
  `ofTokens?_of_derives` is its case of the empty stack.
-/
import Formula.Proofs.Grammar
import Formula.Proofs.Polish.Conservation

namespace Formula

/-- The role of a token in the grammar. -/
def Token.Is : Role → Token → Prop
  | .number, t => t.kind = .number ∧ t.value.isSome = true
  | .reference, t => t.kind = .reference
  | .function, t => t.kind = .function
  | .opening, t => t.kind = .leftParen
  | .closing, t => t.kind = .rightParen
  | .operator op, t => t.operator? = some op

/-- The kind of the tokens that have a role. -/
def Role.kind : Role → Kind
  | number => .number
  | reference => .reference
  | function => .function
  | opening => .leftParen
  | closing => .rightParen
  | operator _ => .operator

theorem Token.Is.kind_eq {r : Role} {t : Token} (h : Token.Is r t) : t.kind = r.kind := by
  cases r with
  | number => exact h.1
  | reference => exact h
  | function => exact h
  | opening => exact h
  | closing => exact h
  | operator op => exact Token.kind_of_operator? h

theorem Role.kind_eq_reference {r : Role} : r.kind = .reference ↔ r = .reference := by
  cases r <;> simp [Role.kind]

theorem Role.kind_eq_function {r : Role} : r.kind = .function ↔ r = .function := by
  cases r <;> simp [Role.kind]

/-- A tree with each number token named by the general notation of its number. -/
def Tree.canonical : Tree Token → Tree Token
  | number n => number n.canonical
  | reference n => reference n
  | negation o t => negation o t.canonical
  | binary o t u => binary o t.canonical u.canonical
  | call f t => call f t.canonical

/-- The least precedence of the operators that a level may leave pending. -/
def Level.rank : Level → Nat
  | sum => 1
  | product => 2
  | factor => 3
  | atom => 4

/-- A level rests on a stack if the top is no function and is released by no operator of
    the level's rank. -/
def Level.Rests (level : Level) (stack : List Token) : Prop :=
  ∀ top ∈ stack.head?,
    top.kind ≠ .function ∧ ∀ o : Token, level.rank ≤ o.precedence → Polish.releases o top = false

namespace Level

variable {level : Level} {stack : List Token} {o l : Token}

theorem rests_nil (level : Level) : level.Rests [] := by
  intro top htop
  cases htop

theorem rests_opening (level : Level) (hl : l.kind = .leftParen) : level.Rests (l :: stack) := by
  intro top htop
  obtain rfl : l = top := Option.some.inj htop
  refine ⟨by rw [hl]; decide, fun o _ => ?_⟩
  exact Polish.releases_leftParen o hl

/-- A level rests on an operator that none of its own operators releases. -/
theorem rests_operator (ho : o.kind = .operator)
    (h : ∀ o' : Token, level.rank ≤ o'.precedence → Polish.releases o' o = false) :
    level.Rests (o :: stack) := by
  intro top htop
  obtain rfl : o = top := Option.some.inj htop
  exact ⟨by rw [ho]; decide, h⟩

/-- A factor rests on every operator: power and negation group to the right. -/
theorem factor_rests_operator (ho : o.kind = .operator) : factor.Rests (o :: stack) := by
  apply rests_operator ho
  intro o' ho'
  have hle : o.precedence ≤ o'.precedence := Nat.le_trans o.precedence_le_three ho'
  exact Polish.releases_of_le hle (Token.isLeftAssociative_of_three_le ho')

theorem Rests.of_rank_le {level' : Level} (h : level.Rests stack)
    (hrank : level.rank ≤ level'.rank) : level'.Rests stack := by
  intro top htop
  obtain ⟨hkind, hkeeps⟩ := h top htop
  exact ⟨hkind, fun o ho => hkeeps o (Nat.le_trans hrank ho)⟩

theorem Rests.not_releases (h : level.Rests stack) (ho : level.rank ≤ o.precedence) :
    ∀ top ∈ stack.head?, Polish.releases o top = false :=
  fun top htop => (h top htop).2 o ho

/-- A closing parenthesis completes no function under a group that rests on a stack. -/
theorem Rests.completed (h : level.Rests stack) : Polish.completed stack = ([], stack) :=
  Polish.completed_of_head? fun top htop => (h top htop).1

end Level

namespace Polish

variable {stack held held₁ held₂ xs ys rpn rpn₁ rpn₂ : List Token} {o l r f : Token}

/-- From `stack`, the tokens `ts` leave `held` on top, and what they send followed by
    `held` is `rpn`. -/
def Reads (stack ts held rpn : List Token) : Prop :=
  pending stack ts = held ++ stack ∧ emitted stack ts ++ held = rpn

/-- An operator between two operands sends what the left one has left pending, and stays
    pending itself under what the right one leaves. -/
theorem Reads.operator (hx : Reads stack xs held₁ rpn₁) (ho : o.kind = .operator)
    (hheld : ∀ t ∈ held₁, releases o t = true)
    (hstack : ∀ top ∈ stack.head?, releases o top = false)
    (hy : Reads (o :: stack) ys held₂ rpn₂) :
    Reads stack (xs ++ o :: ys) (held₂ ++ [o]) (rpn₁ ++ rpn₂ ++ [o]) := by
  obtain ⟨hpend₁, hemit₁⟩ := hx
  obtain ⟨hpend₂, hemit₂⟩ := hy
  obtain ⟨htake, hdrop⟩ := takeWhile_of_head? hstack
  -- The operator takes all that the left operand holds, and nothing below that.
  have hstep : step (held₁ ++ stack) o = (held₁, o :: stack) := by
    rw [step_operator _ ho, List.takeWhile_append_of_pos hheld,
      List.dropWhile_append_of_pos hheld, htake, hdrop, List.append_nil]
  constructor
  · rw [pending_append, hpend₁, pending_cons, hstep, hpend₂, List.append_assoc,
      List.singleton_append]
  · rw [emitted_append, hpend₁, emitted_cons, hstep, ← hemit₁, ← hemit₂]
    simp only [List.append_assoc]

/-- A group leaves nothing pending above the stack. -/
theorem Reads.group (hl : l.kind = .leftParen) (h : Reads (l :: stack) xs held rpn)
    (hheld : ∀ t ∈ held, isInside t = true) (hr : r.kind = .rightParen)
    (hstack : completed stack = ([], stack)) : Reads stack (l :: (xs ++ [r])) [] rpn := by
  obtain ⟨hpend, hemit⟩ := h
  have hstep := step_closing stack hl hr hheld
  rw [hstack, List.append_nil] at hstep
  constructor
  · rw [pending_cons, step_leftParen _ hl, pending_append, hpend, pending_cons, hstep]
    rfl
  · rw [emitted_cons, step_leftParen _ hl, emitted_append, hpend, emitted_cons, hstep, ← hemit]
    simp

/-- A group behind a function sends the function last. -/
theorem Reads.call (hf : f.kind = .function) (hl : l.kind = .leftParen)
    (h : Reads (l :: f :: stack) xs held rpn) (hheld : ∀ t ∈ held, isInside t = true)
    (hr : r.kind = .rightParen) : Reads stack (f :: l :: (xs ++ [r])) [] (rpn ++ [f]) := by
  obtain ⟨hpend, hemit⟩ := h
  -- The closing parenthesis completes the function that stands under the opening one.
  have hstep := step_closing (f :: stack) hl hr hheld
  rw [completed_cons_function _ hf] at hstep
  constructor
  · rw [pending_cons, step_function _ hf, pending_cons, step_leftParen _ hl, pending_append,
      hpend, pending_cons, hstep]
    rfl
  · rw [emitted_cons, step_function _ hf, emitted_cons, step_leftParen _ hl, emitted_append,
      hpend, emitted_cons, hstep, ← hemit]
    simp

/-- As `Reads`, with what is left pending known to bind at least as tightly as `rank`. -/
def Settles (rank : Nat) (stack ts rpn : List Token) : Prop :=
  ∃ held, Reads stack ts held rpn ∧ ∀ t ∈ held, rank ≤ t.precedence

theorem Settles.of_le {rank rank' : Nat} (h : Settles rank stack xs rpn) (hle : rank' ≤ rank) :
    Settles rank' stack xs rpn := by
  obtain ⟨held, hreads, hheld⟩ := h
  exact ⟨held, hreads, fun t ht => Nat.le_trans hle (hheld t ht)⟩

theorem Reads.settles (rank : Nat) (h : Reads stack xs [] rpn) : Settles rank stack xs rpn :=
  ⟨[], h, by intro t ht; cases ht⟩

/-- What settles at a positive rank leaves no parenthesis pending. -/
theorem Settles.exists_inside {rank : Nat} (h : Settles rank stack xs rpn) (hrank : 0 < rank) :
    ∃ held, Reads stack xs held rpn ∧ ∀ t ∈ held, isInside t = true := by
  obtain ⟨held, hreads, hheld⟩ := h
  exact ⟨held, hreads,
    fun t ht => isInside_of_precedence_pos (Nat.lt_of_lt_of_le hrank (hheld t ht))⟩

/-- An operator that releases all that its left operand may leave pending. -/
theorem Settles.operator {rank rank₁ rank₂ : Nat} (hx : Settles rank₁ stack xs rpn₁)
    (ho : o.kind = .operator) (htakes : ∀ t : Token, rank₁ ≤ t.precedence → releases o t = true)
    (hstack : ∀ top ∈ stack.head?, releases o top = false)
    (hy : Settles rank₂ (o :: stack) ys rpn₂) (hrank : rank ≤ rank₂)
    (hprec : rank ≤ o.precedence) :
    Settles rank stack (xs ++ o :: ys) (rpn₁ ++ rpn₂ ++ [o]) := by
  obtain ⟨held₁, hreads₁, hheld₁⟩ := hx
  obtain ⟨held₂, hreads₂, hheld₂⟩ := hy
  have htakes₁ : ∀ t ∈ held₁, releases o t = true := fun t ht => htakes t (hheld₁ t ht)
  refine ⟨held₂ ++ [o], hreads₁.operator ho htakes₁ hstack hreads₂, ?_⟩
  intro t ht
  rcases List.mem_append.1 ht with ht | ht
  · exact Nat.le_trans hrank (hheld₂ t ht)
  · rw [List.mem_singleton.1 ht]
    exact hprec

/-- An operator that groups to the left, between operands of its own and of the next rank. -/
theorem Settles.leftAssociative {rank rank₂ : Nat} {op : Operator}
    (hx : Settles rank stack xs rpn₁) (ho : o.operator? = some op)
    (hleft : op.isLeftAssociative = true) (hprec : op.precedence = rank) (hpos : 0 < rank)
    (hstack : ∀ top ∈ stack.head?, releases o top = false)
    (hy : Settles rank₂ (o :: stack) ys rpn₂) (hrank : rank ≤ rank₂) :
    Settles rank stack (xs ++ o :: ys) (rpn₁ ++ rpn₂ ++ [o]) := by
  have hoprec : o.precedence = rank := by rw [Token.precedence_of_operator? ho, hprec]
  have holeft : o.isLeftAssociative = true := by
    rw [Token.isLeftAssociative_of_operator? ho, hleft]
  -- What the left operand holds binds at least as tightly as `o`, so `o` releases it.
  refine hx.operator (Token.kind_of_operator? ho) ?_ hstack hy hrank (Nat.le_of_eq hoprec.symm)
  intro t ht
  exact releases_of_isLeftAssociative holeft (by omega) (by omega)

end Polish

/-! ## Derivations -/

variable {level : Level} {ts : List Token} {tree : Tree Token}

/-- The run of a derivation on a stack that its level rests on. -/
theorem Derives.settles (h : Derives Token.Is level ts tree) :
    ∀ {stack : List Token}, level.Rests stack →
      Polish.Settles level.rank stack ts tree.canonical.postorder := by
  induction h with
  | ofProduct _ ih =>
    intro stack hstack
    exact (ih (hstack.of_rank_le (by decide))).of_le (by decide)
  | ofFactor _ ih =>
    intro stack hstack
    exact (ih (hstack.of_rank_le (by decide))).of_le (by decide)
  | ofAtom _ ih =>
    intro stack hstack
    exact (ih (hstack.of_rank_le (by decide))).of_le (by decide)
  | @additive xs ys o t u op _ hop ho _ iht ihu =>
    intro stack hstack
    have hprec : (Operator.binary op).precedence = 1 := by rcases hop with rfl | rfl <;> rfl
    have hleft : (Operator.binary op).isLeftAssociative = true := by
      rcases hop with rfl | rfl <;> rfl
    have hoprec : o.precedence = 1 := by rw [Token.precedence_of_operator? ho, hprec]
    -- The right operand is a product: none of its operators releases the sum's.
    have hright : Level.product.Rests (o :: stack) := by
      apply Level.rests_operator (Token.kind_of_operator? ho)
      intro o' ho'
      have hlt : o.precedence < o'.precedence := by rw [hoprec]; exact ho'
      exact Polish.releases_of_lt hlt
    exact (iht hstack).leftAssociative ho hleft hprec (by decide)
      (hstack.not_releases (Nat.le_of_eq hoprec.symm)) (ihu hright) (by decide)
  | @multiplicative xs ys o t u op _ hop ho _ iht ihu =>
    intro stack hstack
    have hprec : (Operator.binary op).precedence = 2 := by rcases hop with rfl | rfl <;> rfl
    have hleft : (Operator.binary op).isLeftAssociative = true := by
      rcases hop with rfl | rfl <;> rfl
    have hoprec : o.precedence = 2 := by rw [Token.precedence_of_operator? ho, hprec]
    -- The right operand is a factor, which rests on every operator.
    have hright : Level.factor.Rests (o :: stack) :=
      Level.factor_rests_operator (Token.kind_of_operator? ho)
    exact (iht hstack).leftAssociative ho hleft hprec (by decide)
      (hstack.not_releases (Nat.le_of_eq hoprec.symm)) (ihu hright) (by decide)
  | @power xs ys o t u _ ho _ iht ihu =>
    intro stack hstack
    have hkind := Token.kind_of_operator? ho
    have hoprec : 3 ≤ o.precedence := by rw [Token.precedence_of_operator? ho]; decide
    have hatom := iht (hstack.of_rank_le (by decide))
    refine hatom.operator hkind ?_ (hstack.not_releases hoprec)
      (ihu (Level.factor_rests_operator hkind)) (Nat.le_refl _) hoprec
    -- An atom leaves nothing pending: nothing binds as tightly as its rank asks.
    intro t ht
    exact absurd (Nat.le_trans ht t.precedence_le_three) (by decide)
  | @negation xs o t ho _ ih =>
    intro stack hstack
    have hkind := Token.kind_of_operator? ho
    have hoprec : 3 ≤ o.precedence := by rw [Token.precedence_of_operator? ho]; decide
    -- A negation is an operator whose left operand is empty.
    have hnone : Polish.Settles Level.atom.rank stack [] [] :=
      Polish.Reads.settles _ ⟨rfl, rfl⟩
    refine hnone.operator hkind ?_ (hstack.not_releases hoprec)
      (ih (Level.factor_rests_operator hkind)) (Nat.le_refl _) hoprec
    intro t ht
    exact absurd (Nat.le_trans ht t.precedence_le_three) (by decide)
  | @number n hn =>
    intro stack _
    apply Polish.Reads.settles
    constructor
    · rw [Polish.pending_cons, Polish.step_number _ hn.1]; rfl
    · rw [Polish.emitted_cons, Polish.step_number _ hn.1, Token.rendered_eq_canonical hn.1]; rfl
  | @reference n hn =>
    intro stack _
    apply Polish.Reads.settles
    constructor
    · rw [Polish.pending_cons, Polish.step_reference _ hn]; rfl
    · rw [Polish.emitted_cons, Polish.step_reference _ hn]; rfl
  | @group xs l r t hl _ hr ih =>
    intro stack hstack
    obtain ⟨held, hreads, hheld⟩ :=
      (ih (Level.rests_opening .sum hl)).exists_inside (by decide)
    exact (hreads.group hl hheld hr hstack.completed).settles _
  | @call xs f l r t hf hl _ hr ih =>
    intro stack _
    obtain ⟨held, hreads, hheld⟩ :=
      (ih (Level.rests_opening .sum hl)).exists_inside (by decide)
    exact (hreads.call hf hl hheld hr).settles _

theorem Derives.not_lacksValue (h : Derives Token.Is level ts tree) :
    ts.any Polish.lacksValue = false := by
  rw [List.any_eq_false]
  intro t ht
  obtain ⟨r, hr⟩ := h.writes.exists_role t ht
  have hkind := hr.kind_eq
  -- Only the role of a number asks for one, and it has one.
  cases r with
  | number =>
    obtain ⟨x, hx⟩ := Option.isSome_iff_exists.1 hr.2
    simp [Polish.lacksValue, hx]
  | _ => simp [Polish.lacksValue, hkind, Role.kind]

theorem Derives.ofTokens_eq (h : Derives Token.Is .sum ts tree) :
    Polish.ofTokens ts = tree.canonical.postorder := by
  obtain ⟨held, ⟨hpend, hemit⟩, hinside⟩ :=
    (h.settles (Level.rests_nil .sum)).exists_inside (by decide)
  rw [List.append_nil] at hpend
  rw [Polish.ofTokens, Polish.convert_eq_emitted, hpend, List.filter_eq_self.2 hinside, hemit]

/-- The conversion of a formula does not fail, and its result is the postorder of the
    syntax tree: operands before their operator, the left one first, an argument before
    its function, no parentheses, every number token under the general notation of its
    number, and every other token as it was. -/
theorem ofTokens?_of_derives (h : Derives Token.Is .sum ts tree) :
    Polish.ofTokens? ts = .ok tree.canonical.postorder := by
  rw [Polish.ofTokens?, h.not_lacksValue, h.ofTokens_eq]
  rfl

open Token in
/-- In `~a^b-(2.0-c)*f(d)` the negation reaches over the power, and the number is renamed. -/
theorem ofTokens?_of_derives_negated_power :
    Polish.ofTokens?
        [ofOperator .negation, reference ['a'], ofOperator (.binary .power), reference ['b'],
          ofOperator (.binary .subtract), leftParen, number ['2', '.', '0'] 2.0,
          ofOperator (.binary .subtract), reference ['c'], rightParen,
          ofOperator (.binary .multiply), function ['f'], leftParen, reference ['d'],
          rightParen] =
      .ok [reference ['a'], reference ['b'], ofOperator (.binary .power), ofOperator .negation,
        number ['2'] 2.0, reference ['c'], ofOperator (.binary .subtract),
        reference ['d'], function ['f'], ofOperator (.binary .multiply),
        ofOperator (.binary .subtract)] := by
  have hleft : Derives Token.Is .sum
      (ofOperator .negation :: ([reference ['a']] ++
        ofOperator (.binary .power) :: [reference ['b']])) _ :=
    .ofProduct (.ofFactor (.negation rfl (.power (.reference rfl) rfl (.ofAtom (.reference rfl)))))
  have hgroup : Derives Token.Is .atom
      (leftParen :: (([number ['2', '.', '0'] 2.0] ++
        ofOperator (.binary .subtract) :: [reference ['c']]) ++ [rightParen])) _ :=
    .group rfl (.additive (.ofProduct (.ofFactor (.ofAtom (.number ⟨rfl, rfl⟩)))) (.inr rfl) rfl
      (.ofFactor (.ofAtom (.reference rfl)))) rfl
  have hcall : Derives Token.Is .factor
      (function ['f'] :: leftParen :: ([reference ['d']] ++ [rightParen])) _ :=
    .ofAtom (.call rfl rfl (.ofProduct (.ofFactor (.ofAtom (.reference rfl)))) rfl)
  have hright := Derives.multiplicative (.ofFactor (.ofAtom hgroup)) (.inl rfl)
    (show Token.Is _ (ofOperator (.binary .multiply)) from rfl) hcall
  have hname : formatNumber 2.0 = ['2'] := by decide +kernel
  rw [← hname]
  exact ofTokens?_of_derives (.additive hleft (.inr rfl)
    (show Token.Is _ (ofOperator (.binary .subtract)) from rfl) hright)

end Formula
