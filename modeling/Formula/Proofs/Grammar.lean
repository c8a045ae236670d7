/-
  Formula.Proofs.Grammar

  The grammar of formulas, over any kind of symbols, and the syntax trees that its
  derivations build.

      sum     ::= product | sum (+|-) product
      product ::= factor | product (*|/) factor
      factor  ::= atom | atom ^ factor | ~ factor
      atom    ::= number | variable | ( sum ) | function ( sum )

    * `Role` — what a symbol can stand for in the grammar.
    * `Derives is level xs t` — the symbols `xs` are derived from `level`, and `t` is the
      tree of that derivation. `is r s` says which symbols `s` have the role `r`, so the
      one grammar serves for tokens and for the texts that tokens are read from.
    * `Tree.postorder` — the symbols of a tree, operands before what is applied to them.
    * `Tree.value` — the number of a tree, given what its symbols mean.

  Addition, subtraction, multiplication and division group to the left, power to the
  right; a negation reaches over the powers behind it. Parentheses leave no trace in
  a tree.
-/
import Formula.Function.Basic
import Formula.Operator

namespace Formula

/-- What a symbol can stand for in a formula. -/
inductive Role where
  | number
  | reference
  | function
  | opening
  | closing
  | operator (op : Operator)
  deriving DecidableEq, Repr

/-- Syntax trees. Each node holds the symbol that it comes from. -/
inductive Tree (σ : Type) where
  | number (n : σ)
  | reference (n : σ)
  | negation (o : σ) (t : Tree σ)
  | binary (o : σ) (t u : Tree σ)
  | call (f : σ) (t : Tree σ)

/-- The levels of the grammar, the loosest one first. -/
inductive Level where
  | sum
  | product
  | factor
  | atom
  deriving DecidableEq, Repr

/-- The derivations of the grammar, each with its tree. -/
inductive Derives {σ : Type} (is : Role → σ → Prop) : Level → List σ → Tree σ → Prop where
  | ofProduct {xs : List σ} {t : Tree σ} :
      Derives is .product xs t → Derives is .sum xs t
  | additive {xs ys : List σ} {o : σ} {t u : Tree σ} {op : BinaryOperator} :
      Derives is .sum xs t → op = .add ∨ op = .subtract → is (.operator (.binary op)) o →
      Derives is .product ys u → Derives is .sum (xs ++ o :: ys) (.binary o t u)
  | ofFactor {xs : List σ} {t : Tree σ} :
      Derives is .factor xs t → Derives is .product xs t
  | multiplicative {xs ys : List σ} {o : σ} {t u : Tree σ} {op : BinaryOperator} :
      Derives is .product xs t → op = .multiply ∨ op = .divide →
      is (.operator (.binary op)) o →
      Derives is .factor ys u → Derives is .product (xs ++ o :: ys) (.binary o t u)
  | ofAtom {xs : List σ} {t : Tree σ} :
      Derives is .atom xs t → Derives is .factor xs t
  | power {xs ys : List σ} {o : σ} {t u : Tree σ} :
      Derives is .atom xs t → is (.operator (.binary .power)) o →
      Derives is .factor ys u → Derives is .factor (xs ++ o :: ys) (.binary o t u)
  | negation {xs : List σ} {o : σ} {t : Tree σ} :
      is (.operator .negation) o → Derives is .factor xs t →
      Derives is .factor (o :: xs) (.negation o t)
  | number {n : σ} : is .number n → Derives is .atom [n] (.number n)
  | reference {n : σ} : is .reference n → Derives is .atom [n] (.reference n)
  | group {xs : List σ} {l r : σ} {t : Tree σ} :
      is .opening l → Derives is .sum xs t → is .closing r →
      Derives is .atom (l :: (xs ++ [r])) t
  | call {xs : List σ} {f l r : σ} {t : Tree σ} :
      is .function f → is .opening l → Derives is .sum xs t → is .closing r →
      Derives is .atom (f :: l :: (xs ++ [r])) (.call f t)

/-- What the symbols of a tree mean. -/
structure Meaning (σ : Type) where
  number : σ → Float
  reference : σ → Float
  operation : σ → Float → Float → Float
  call : σ → Float → Except Fault Float

namespace Tree

variable {σ τ : Type}

/-- The symbols of a tree: operands before their operator, the left operand before the
    right one, an argument before its function. -/
def postorder : Tree σ → List σ
  | number n => [n]
  | reference n => [n]
  | negation o t => t.postorder ++ [o]
  | binary o t u => t.postorder ++ u.postorder ++ [o]
  | call f t => t.postorder ++ [f]

/-- A tree with every symbol replaced. -/
def map (g : σ → τ) : Tree σ → Tree τ
  | number n => number (g n)
  | reference n => reference (g n)
  | negation o t => negation (g o) (t.map g)
  | binary o t u => binary (g o) (t.map g) (u.map g)
  | call f t => call (g f) (t.map g)

/-- The number of a tree. The opposite of a number is its product with minus one. The left
    operand is evaluated before the right one, and the first failure is the failure of the
    tree. -/
def value (m : Meaning σ) : Tree σ → Except Fault Float
  | number n => .ok (m.number n)
  | reference n => .ok (m.reference n)
  | negation _ t => (t.value m).map fun x => (-1.0) * x
  | binary o t u => (t.value m).bind fun x => (u.value m).map fun y => m.operation o x y
  | call f t => (t.value m).bind (m.call f)

end Tree

/-- The symbols that write a tree, how tightly operators bind left aside. Facts that
    have nothing to do with precedence are proved by induction on this relation, which
    has one case for each kind of node and one for parentheses. -/
inductive Writes {σ : Type} (is : Role → σ → Prop) : List σ → Tree σ → Prop where
  | number {n : σ} : is .number n → Writes is [n] (.number n)
  | reference {n : σ} : is .reference n → Writes is [n] (.reference n)
  | negation {xs : List σ} {o : σ} {t : Tree σ} :
      is (.operator .negation) o → Writes is xs t → Writes is (o :: xs) (.negation o t)
  | binary {xs ys : List σ} {o : σ} {t u : Tree σ} {op : BinaryOperator} :
      Writes is xs t → is (.operator (.binary op)) o → Writes is ys u →
      Writes is (xs ++ o :: ys) (.binary o t u)
  | group {xs : List σ} {l r : σ} {t : Tree σ} :
      is .opening l → Writes is xs t → is .closing r → Writes is (l :: (xs ++ [r])) t
  | call {xs : List σ} {f l r : σ} {t : Tree σ} :
      is .function f → is .opening l → Writes is xs t → is .closing r →
      Writes is (f :: l :: (xs ++ [r])) (.call f t)

variable {σ τ : Type} {is : Role → σ → Prop} {level : Level} {xs : List σ} {t : Tree σ}

/-- A derivation writes its tree. -/
theorem Derives.writes (h : Derives is level xs t) : Writes is xs t := by
  induction h with
  | ofProduct _ ih => exact ih
  | additive _ _ ho _ iht ihu => exact .binary iht ho ihu
  | ofFactor _ ih => exact ih
  | multiplicative _ _ ho _ iht ihu => exact .binary iht ho ihu
  | ofAtom _ ih => exact ih
  | power _ ho _ iht ihu => exact .binary iht ho ihu
  | negation ho _ ih => exact .negation ho ih
  | number hn => exact .number hn
  | reference hn => exact .reference hn
  | group hl _ hr ih => exact .group hl ih hr
  | call hf hl _ hr ih => exact .call hf hl ih hr

/-- A map that keeps roles maps a derivation to one of the mapped tree. -/
theorem Derives.map {is' : Role → τ → Prop} {g : σ → τ} (hg : ∀ r x, is r x → is' r (g x))
    (h : Derives is level xs t) : Derives is' level (xs.map g) (t.map g) := by
  induction h with
  | ofProduct _ ih => exact .ofProduct ih
  | additive _ hop ho _ iht ihu =>
    rw [List.map_append, List.map_cons]
    exact .additive iht hop (hg _ _ ho) ihu
  | ofFactor _ ih => exact .ofFactor ih
  | multiplicative _ hop ho _ iht ihu =>
    rw [List.map_append, List.map_cons]
    exact .multiplicative iht hop (hg _ _ ho) ihu
  | ofAtom _ ih => exact .ofAtom ih
  | power _ ho _ iht ihu =>
    rw [List.map_append, List.map_cons]
    exact .power iht (hg _ _ ho) ihu
  | negation ho _ ih => exact .negation (hg _ _ ho) ih
  | number hn => exact .number (hg _ _ hn)
  | reference hn => exact .reference (hg _ _ hn)
  | group hl _ hr ih =>
    rw [List.map_cons, List.map_append]
    exact .group (hg _ _ hl) ih (hg _ _ hr)
  | call hf hl _ hr ih =>
    rw [List.map_cons, List.map_cons, List.map_append]
    exact .call (hg _ _ hf) (hg _ _ hl) ih (hg _ _ hr)

theorem Writes.exists_role (h : Writes is xs t) : ∀ x ∈ xs, ∃ r, is r x := by
  induction h with
  | number hn => exact List.forall_mem_singleton.2 ⟨_, hn⟩
  | reference hn => exact List.forall_mem_singleton.2 ⟨_, hn⟩
  | negation ho _ ih => exact List.forall_mem_cons.2 ⟨⟨_, ho⟩, ih⟩
  | binary _ ho _ iht ihu =>
    exact List.forall_mem_append.2 ⟨iht, List.forall_mem_cons.2 ⟨⟨_, ho⟩, ihu⟩⟩
  | group hl _ hr ih =>
    have hrest := List.forall_mem_append.2 ⟨ih, List.forall_mem_singleton.2 ⟨_, hr⟩⟩
    exact List.forall_mem_cons.2 ⟨⟨_, hl⟩, hrest⟩
  | call hf hl _ hr ih =>
    have hrest := List.forall_mem_append.2 ⟨ih, List.forall_mem_singleton.2 ⟨_, hr⟩⟩
    exact List.forall_mem_cons.2 ⟨⟨_, hf⟩, List.forall_mem_cons.2 ⟨⟨_, hl⟩, hrest⟩⟩

end Formula
