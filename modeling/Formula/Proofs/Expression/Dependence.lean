/-
  Formula.Proofs.Expression.Dependence

  What an expression depends on: the functions that its pieces find and the numbers of its
  variables, and nothing else of its table and of a scope.

    * `Unnoticed name counts xs ys` — two lists of named things differ by things whose name
      stands before already or does not count, and by the order of different names.
    * `Function.AgreeOn table table' p` — `p` finds no function in either table, or two with
      the same answers to numbers.
    * `Scope.bound? scope name` — the number of the first binding of just that name.
    * `Expression.ShowAlike e f` — all that can be seen of `e` and `f` before an evaluation is
      the same.
    * `Expression.SameOutcome` — two constructions fail alike, or give expressions that show
      alike and have the same numbers.

  Two ways in which a token could reach further are closed for what is read from text. A
  token that is read as a function finds one, so it is never looked up as a variable
  (`Token.isSome_find?_of_ofPiece`), and a token that is read as a variable has no delimiter
  in its name, so no binding answers for it with an opposite number
  (`Token.not_isDelimiter_of_ofPiece`).
-/
import Formula.Proofs.Expression.Meaning

namespace Formula

/-! ## Lists of named things -/

/-- Lists of named things that are the same to whoever looks for the first thing of a name
    that counts. -/
inductive Unnoticed {α : Type} (name : α → Text) (counts : Text → Prop) : List α → List α → Prop
  /-- A thing is left out behind another of its name. -/
  | shadowed {x y : α} (h : name x = name y) (xs ys zs : List α) :
      Unnoticed name counts (xs ++ x :: ys ++ y :: zs) (xs ++ x :: ys ++ zs)
  /-- Two things of different names change places. -/
  | swapped {x y : α} (h : name x ≠ name y) (xs ys : List α) :
      Unnoticed name counts (xs ++ x :: y :: ys) (xs ++ y :: x :: ys)
  /-- A thing is left out whose name does not count. -/
  | dropped {x : α} (h : ¬ counts (name x)) (xs ys : List α) :
      Unnoticed name counts (xs ++ x :: ys) (xs ++ ys)
  | refl (xs : List α) : Unnoticed name counts xs xs
  | symm {xs ys : List α} (h : Unnoticed name counts xs ys) : Unnoticed name counts ys xs
  | trans {xs ys zs : List α} (h : Unnoticed name counts xs ys)
      (h' : Unnoticed name counts ys zs) : Unnoticed name counts xs zs

theorem Unnoticed.find?_eq {α : Type} {name : α → Text} {counts : Text → Prop} {xs ys : List α}
    (h : Unnoticed name counts xs ys) {n : Text} (hn : counts n) :
    (xs.find? fun x => name x = n) = ys.find? fun x => name x = n := by
  induction h with
  | @shadowed x y h xs ys zs =>
    by_cases hx : name x = n
    · -- The first of the two, or a thing before it, is found on both sides.
      have hcons : ∀ us : List α, ((x :: us).find? fun z => name z = n) = some x :=
        fun us => List.find?_cons_of_pos (by simpa using hx)
      simp only [List.find?_append, hcons, Option.or_some, Option.some_or]
    · have hy : name y ≠ n := h ▸ hx
      rw [List.find?_append, List.find?_cons_of_neg (by simpa using hy), ← List.find?_append]
  | @swapped x y h xs ys =>
    rw [List.find?_append, List.find?_append]
    by_cases hx : name x = n
    · have hy : name y ≠ n := fun hy => h (hx.trans hy.symm)
      rw [List.find?_cons_of_pos (by simpa using hx), List.find?_cons_of_neg (by simpa using hy),
        List.find?_cons_of_pos (by simpa using hx)]
    · have hcons : ∀ us : List α, ((x :: us).find? fun z => name z = n) =
          us.find? fun z => name z = n :=
        fun us => List.find?_cons_of_neg (by simpa using hx)
      rw [hcons, List.find?_cons, List.find?_cons, hcons]
  | @dropped x h xs ys =>
    have hx : name x ≠ n := by
      rintro rfl
      exact h hn
    rw [List.find?_append, List.find?_append, List.find?_cons_of_neg (by simpa using hx)]
  | refl xs => rfl
  | symm _ ih => exact ih.symm
  | trans _ _ ih ih' => exact ih.trans ih'

/-! ## Tables -/

/-- A piece finds nothing in two tables, or functions with the same answers to numbers. -/
structure Function.AgreeOn (table table' : List Function) (p : Text) : Prop where
  isSome_eq : (find? table p).isSome = (find? table' p).isSome
  value_eq : ∀ f g, find? table p = some f → find? table' p = some g →
    ∀ x : Float, f.value (some x) = g.value (some x)

variable {table table' : List Function} {p text : Text} {t : Token}

theorem Function.AgreeOn.of_eq (h : find? table p = find? table' p) : AgreeOn table table' p where
  isSome_eq := by rw [h]
  value_eq f g hf hg x := by
    rw [h, hg] at hf
    rw [Option.some.inj hf]

/-- Functions with the same answers to numbers are called with the same effect where no number
    is missing. -/
theorem Machine.Present.call_congr {f g : Function} {stack : Stack}
    (h : ∀ x : Float, f.value (some x) = g.value (some x)) (hs : Present stack) :
    Machine.call f stack = Machine.call g stack := by
  cases stack with
  | nil => rfl
  | cons x stack =>
    obtain ⟨⟨x, rfl⟩, -⟩ := present_cons_iff.1 hs
    rw [Machine.call, Machine.call, h x]

/-! ## Tokens of pieces -/

namespace Token

theorem ofPiece_congr (h : Function.AgreeOn table table' p) :
    ofPiece table p = ofPiece table' p := by
  have hword : ofWord table p = ofWord table' p := by rw [ofWord, ofWord, h.isSome_eq]
  rw [ofPiece, ofPiece, hword]

theorem ofPieces_congr {ps : List Text} (h : ∀ p ∈ ps, Function.AgreeOn table table' p) :
    ofPieces table ps = ofPieces table' ps := by
  induction ps with
  | nil => rfl
  | cons p ps ih =>
    obtain ⟨hp, hps⟩ := List.forall_mem_cons.1 h
    rw [ofPieces_cons, ofPieces_cons, ofPiece_congr hp, ih hps]

/-- Tables that agree on the pieces of a text read it alike. -/
theorem ofText_congr (h : ∀ p ∈ pieces text, Function.AgreeOn table table' p) :
    ofText table text = ofText table' text := by
  rw [ofText, ofText, ofPieces_congr h]

/-- What is read as a function is found in the table. -/
theorem isSome_find?_of_ofPiece (h : ofPiece table p = .ok t) (hkind : t.kind = .function) :
    (Function.find? table p).isSome = true := by
  rcases ofPiece_cases h with ⟨x, rfl⟩ | rfl
  · cases hkind
  · rcases ofWord_cases table p with ⟨hfound, -⟩ | ⟨op, hword⟩ | hword | hword | hword
    · exact hfound
    -- An operator, a parenthesis or a variable is no function.
    all_goals
      rw [hword] at hkind
      cases hkind

/-- A delimiter is never read as a variable: it is an operator or a parenthesis, unless a
    function has its name. -/
theorem kind_ofWord_delimiter {c : Char} (hc : isDelimiter c = true) :
    (ofWord table [c]).kind ≠ .reference := by
  have hall : delimiters.all (fun c => (ofWord [] [c]).kind ≠ .reference) = true := by decide
  have hempty : (ofWord [] [c]).kind ≠ .reference :=
    of_decide_eq_true (List.all_eq_true.1 hall c (List.contains_iff_mem.1 hc))
  cases hfind : (Function.find? table [c]).isSome with
  | true =>
    rw [ofWord, if_pos hfind]
    intro h
    cases h
  | false =>
    have hsame : ofWord table [c] = ofWord [] [c] := by
      rw [ofWord, ofWord, hfind]
      rfl
    rwa [hsame]

/-- What is read as a variable in a text has no delimiter in its name. -/
theorem not_isDelimiter_of_ofPiece (hp : p ∈ pieces text) (h : ofPiece table p = .ok t)
    (hkind : t.kind = .reference) : ∀ c ∈ p, isDelimiter c = false := by
  rcases delimiter_of_mem_pieces hp with ⟨c, hc, rfl⟩ | hnone
  · rw [ofPiece, readNumber_delimiter hc] at h
    cases h
    exact absurd hkind (kind_ofWord_delimiter hc)
  · exact hnone

end Token

/-! ## Scopes -/

/-- The number of the first binding of just one name. -/
def Scope.bound? (scope : Scope) (name : Text) : Option Float :=
  (scope.find? fun b => b.name = name).map Binding.value

namespace Expression

/-- Two scopes bind the variables of an expression alike. -/
def ScopesAgree (e : Expression) (scope scope' : Scope) : Prop :=
  ∀ t ∈ e.tokens, t.kind = .reference → scope.bound? t.name = scope'.bound? t.name

/-- Expressions of which the same can be seen before an evaluation. -/
structure ShowAlike (e f : Expression) : Prop where
  text : e.text = f.text
  tokens : e.tokens = f.tokens
  rpn : e.rpn = f.rpn
  render : e.render = f.render
  renderRpn : e.renderRpn = f.renderRpn
  describe : e.describe = f.describe
  isBalanced : e.isBalanced = f.isBalanced
  isWellFormed : e.isWellFormed = f.isWellFormed

/-- Two constructions with one outcome. -/
inductive SameOutcome : Except Fault Expression → Except Fault Expression → Prop
  | failed (fault : Fault) : SameOutcome (.error fault) (.error fault)
  | built {e f : Expression} (hshow : ShowAlike e f)
      (heval : ∀ scope scope', e.ScopesAgree scope scope' →
        e.evaluateWith scope = f.evaluateWith scope') : SameOutcome (.ok e) (.ok f)

variable {e f : Expression} {scope scope' : Scope}

/-- What is seen of an expression is made from its text and its tokens. -/
theorem ShowAlike.of_tokens (htext : e.text = f.text) (htokens : e.tokens = f.tokens) :
    ShowAlike e f := by
  have hrpn : e.rpn = f.rpn := congrArg Polish.ofTokens htokens
  exact {
    text := htext
    tokens := htokens
    rpn := hrpn
    render := congrArg Token.spacedNames htokens
    renderRpn := congrArg Token.spacedNames hrpn
    describe := by
      unfold Expression.describe
      rw [htext]
    isBalanced := congrArg Formula.isBalanced htext
    isWellFormed := by rw [Expression.isWellFormed, Expression.isWellFormed, hrpn] }

/-- Bindings of names with delimiters, shadowed bindings and the order of different names do
    not matter to the variables of an expression. -/
theorem scopesAgree_of_unnoticed
    (h : Unnoticed Binding.name (fun name => ∀ c ∈ name, isDelimiter c = false) scope scope')
    (e : Expression) : e.ScopesAgree scope scope' := by
  intro t ht hkind
  obtain ⟨p, hp, hpiece⟩ := Token.exists_piece_of_mem_ofText e.tokens_ofText ht
  have hplain : ∀ c ∈ t.name, isDelimiter c = false := by
    rw [Token.name_ofPiece hpiece]
    exact Token.not_isDelimiter_of_ofPiece hp hpiece hkind
  rw [Scope.bound?, Scope.bound?, h.find?_eq hplain]

/-! ## Evaluation -/

/-- A token of an expression has one effect over tables that agree on the pieces of the text
    and in scopes that agree on the variables, wherever no number is missing. -/
theorem step_congr (htable : ∀ p ∈ pieces e.text, Function.AgreeOn e.table table' p)
    (hscope : e.ScopesAgree scope scope') (ht : t ∈ e.rpn) {stack : Machine.Stack}
    (hs : Machine.Present stack) :
    Machine.step e.table scope stack t = Machine.step table' scope' stack t := by
  obtain ⟨u, hu, hcontribution⟩ := Polish.mem_ofTokens_iff.1 ht
  obtain ⟨p, hp, hpiece⟩ := Token.exists_piece_of_mem_ofText e.tokens_ofText hu
  obtain ⟨hkind, hleft, hright⟩ := Polish.kind_of_mem_contribution hcontribution
  -- Only a number is not sent as it was read, and it looks nothing up.
  by_cases hnumber : t.kind = .number
  · rw [Machine.step_number hnumber, Machine.step_number hnumber]
  · rw [Polish.contribution_self (hkind ▸ hnumber) (hkind ▸ hleft) (hkind ▸ hright),
      List.mem_singleton] at hcontribution
    subst hcontribution
    have hname : t.name = p := Token.name_ofPiece hpiece
    cases hcase : t.kind with
    | number => exact absurd hcase hnumber
    | leftParen => exact absurd hcase hleft
    | rightParen => exact absurd hcase hright
    | operator => rw [Machine.step_operator hcase, Machine.step_operator hcase]
    | function =>
      have hfound := Token.isSome_find?_of_ofPiece hpiece hcase
      obtain ⟨g, hg⟩ := Option.isSome_iff_exists.1 hfound
      obtain ⟨h, hh⟩ := Option.isSome_iff_exists.1 ((htable p hp).isSome_eq.symm.trans hfound)
      have hcall := hs.call_congr ((htable p hp).value_eq g h hg hh)
      rw [← hname] at hg hh
      rw [Machine.step_function hcase hg, Machine.step_function hcase hh, hcall]
    | reference =>
      have hplain : ∀ c ∈ t.name, isDelimiter c = false := by
        rw [hname]
        exact Token.not_isDelimiter_of_ofPiece hp hpiece hcase
      have hlookup : scope.lookup? t.name = scope'.lookup? t.name := by
        rw [Scope.lookup?_eq_find?_of_not_isDelimiter hplain,
          Scope.lookup?_eq_find?_of_not_isDelimiter hplain]
        exact hscope t hu hcase
      rw [Machine.step_reference hcase, Machine.step_reference hcase, Machine.refer,
        Machine.refer, hlookup]

/-- Expressions with the same tokens in reverse Polish order have the same number over tables
    and in scopes that agree on what is mentioned. -/
theorem evaluateWith_congr (hrpn : e.rpn = f.rpn)
    (htable : ∀ p ∈ pieces e.text, Function.AgreeOn e.table f.table p)
    (hscope : e.ScopesAgree scope scope') : e.evaluateWith scope = f.evaluateWith scope' := by
  have hrun : Machine.run e.table scope e.rpn [] = Machine.run f.table scope' e.rpn [] :=
    Machine.present_nil.run_congr (fun _ => hasNumber_of_mem_rpn)
      fun t ht stack hs => step_congr htable hscope ht hs
  rw [evaluateWith, evaluateWith, Machine.evaluate, Machine.evaluate, ← hrpn, hrun]

variable {blanks : Blanks}

/-- Tables that agree on the pieces of a text have the same outcome for it. -/
theorem sameOutcome_of_agreeOn
    (h : ∀ p ∈ pieces (blanks.clean text), Function.AgreeOn table table' p) :
    SameOutcome (ofText? table blanks text) (ofText? table' blanks text) := by
  have hread : Token.ofText table (blanks.clean text) = Token.ofText table' (blanks.clean text) :=
    Token.ofText_congr h
  cases htokens : Token.ofText table (blanks.clean text) with
  | error fault =>
    rw [ofText?_eq_error_iff.2 htokens, ofText?_eq_error_iff.2 (hread.symm.trans htokens)]
    exact .failed fault
  | ok tokens =>
    let e : Expression := ⟨table, blanks.clean text, tokens, htokens⟩
    let f : Expression := ⟨table', blanks.clean text, tokens, hread.symm.trans htokens⟩
    have he : ofText? table blanks text = .ok e := ofText?_eq_ok_iff.2 ⟨rfl, rfl⟩
    have hf : ofText? table' blanks text = .ok f := ofText?_eq_ok_iff.2 ⟨rfl, rfl⟩
    rw [he, hf]
    have hshow : ShowAlike e f := ShowAlike.of_tokens rfl rfl
    exact .built hshow fun scope scope' hscope => evaluateWith_congr rfl h hscope

/-- Construction and evaluation depend on what the text mentions only. Over two tables that
    agree on every piece of the text, both constructions fail in the same way, or both
    expressions show the same and have the same number in any two scopes in which the variables
    of the text have the same first bindings; a scope may be that of a mapping or that of a
    sequence.

    So functions that no piece names are not noticed, functions behind others of their name
    neither, and the order of different names does not matter. The same goes for bindings,
    among which those of names with delimiters never count. -/
theorem ofText?_sameOutcome (blanks : Blanks) (text : Text) :
    (∀ table table' : List Function,
      (∀ p ∈ pieces (blanks.clean text), Function.AgreeOn table table' p) →
        SameOutcome (ofText? table blanks text) (ofText? table' blanks text)) ∧
    (∀ table table' : List Function,
      Unnoticed Function.name (· ∈ pieces (blanks.clean text)) table table' →
        SameOutcome (ofText? table blanks text) (ofText? table' blanks text)) ∧
    ∀ (e : Expression) (scope scope' : Scope),
      Unnoticed Binding.name (fun name => ∀ c ∈ name, isDelimiter c = false) scope scope' →
        e.evaluateWith scope = e.evaluateWith scope' := by
  refine ⟨fun table table' h => sameOutcome_of_agreeOn h, ?_, ?_⟩
  · intro table table' h
    apply sameOutcome_of_agreeOn
    intro p hp
    exact .of_eq (h.find?_eq hp)
  · intro e scope scope' h
    exact evaluateWith_congr rfl (fun p _ => .of_eq rfl) (scopesAgree_of_unnoticed h e)

/-- The number of `f(x) + x` does not depend on where `f` stands in the table, on a second
    binding of `x` or on a binding of `~x` before it. -/
theorem ofText?_sameOutcome_opposite :
    ∃ e e' : Expression,
      ofText? [.total ['f'] negate, .total ['g'] Float.sin] .dropped "f(x) + x".toList = .ok e ∧
        ofText? [.total ['h'] Float.cos, .total ['f'] negate] .dropped "f(x) + x".toList = .ok e' ∧
          e.evaluateWith [⟨['x'], 3.0⟩, ⟨['x'], 7.0⟩] =
            e'.evaluateWith [⟨['~', 'x'], 1.0⟩, ⟨['y'], 2.0⟩, ⟨['x'], 3.0⟩] := by
  let tokens : List Token :=
    [.function ['f'], .leftParen, .reference ['x'], .rightParen, .ofOperator (.binary .add),
      .reference ['x']]
  let e : Expression :=
    ⟨[.total ['f'] negate, .total ['g'] Float.sin], "f(x)+x".toList, tokens, rfl⟩
  let e' : Expression :=
    ⟨[.total ['h'] Float.cos, .total ['f'] negate], "f(x)+x".toList, tokens, rfl⟩
  have he : ofText? e.table .dropped "f(x) + x".toList = .ok e :=
    ofText?_eq_ok_iff.2 ⟨rfl, by decide⟩
  have he' : ofText? e'.table .dropped "f(x) + x".toList = .ok e' :=
    ofText?_eq_ok_iff.2 ⟨rfl, by decide⟩
  have htables : ∀ p ∈ pieces (Blanks.dropped.clean "f(x) + x".toList),
      Function.AgreeOn e.table e'.table p := by
    have hpieces : pieces (Blanks.dropped.clean "f(x) + x".toList) =
        [['f'], ['('], ['x'], [')'], ['+'], ['x']] := by decide
    rw [hpieces]
    intro p hp
    simp only [List.mem_cons, List.not_mem_nil, or_false] at hp
    rcases hp with rfl | rfl | rfl | rfl | rfl | rfl <;> exact .of_eq rfl
  have houtcome := (ofText?_sameOutcome .dropped "f(x) + x".toList).1 _ _ htables
  rw [he, he'] at houtcome
  cases houtcome with
  | built hshow heval =>
    have hx : ∀ t ∈ tokens, t.kind = .reference → t.name = ['x'] := by decide
    refine ⟨e, e', he, he', heval _ _ ?_⟩
    intro t ht hkind
    rw [hx t ht hkind]
    rfl

end Expression

end Formula
