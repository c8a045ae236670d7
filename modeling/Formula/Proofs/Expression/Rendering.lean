/-
  Formula.Proofs.Expression.Rendering

  Expressions written out and read back.

  The names of the tokens of a balanced expression are the pieces of its text
  (`flatten_names`), and what is written out has those pieces with spaces between them, so
  without blanks it is the text again (`withoutBlanks_render`). An expression that is not
  balanced has no tokens and is written as nothing. In both cases the tokens come back
  (`ofText_render`). Nothing here depends on what the pieces are.
-/
import Mathlib.Tactic.TFAE
import Formula.Expression
import Formula.Proofs.Token.Reading

namespace Formula

/-- Token lists that agree token by token have the same names. -/
theorem Token.map_name_eq_of_sameAs {ts us : List Token}
    (h : List.Forall₂ (fun t u => t.sameAs u = true) ts us) : ts.map name = us.map name := by
  induction h with
  | nil => rfl
  | cons hsame _ ih => rw [List.map_cons, List.map_cons, (sameAs_iff.1 hsame).2, ih]

namespace Expression

variable {table : List Function} {t : Text} {e f : Expression}

/-! ## Names -/

/-- The names of the tokens of a balanced expression are the pieces of its text. -/
theorem map_name_tokens (h : e.isBalanced = true) : e.tokens.map Token.name = pieces e.text :=
  Token.map_name_of_ofPieces (ofPieces_of_isBalanced h)

/-- The names of the tokens of a balanced expression make up its text. -/
theorem flatten_names (h : e.isBalanced = true) : (e.tokens.map Token.name).flatten = e.text := by
  rw [map_name_tokens h, flatten_pieces]

/-- An expression that is not balanced is written as nothing. -/
theorem render_of_not_isBalanced (h : e.isBalanced = false) : e.render = [] := by
  rw [render, tokens_of_not_isBalanced h]
  rfl

/-! ## Blanks -/

theorem withoutBlanks_text (h : ofText? table .dropped t = .ok e) :
    withoutBlanks e.text = e.text := by
  rw [(text_of_ofText? h).2]
  exact withoutBlanks_idem t

/-- A balanced expression that was read without blanks is written as its text, up to
    blanks. -/
theorem withoutBlanks_render (h : ofText? table .dropped t = .ok e)
    (hbalanced : e.isBalanced = true) : withoutBlanks e.render = e.text := by
  rw [render, Token.spacedNames, withoutBlanks_spaced, flatten_names hbalanced,
    withoutBlanks_text h]

/-! ## Reading back -/

/-- What an expression is written as has its tokens. -/
theorem ofText_render (h : ofText? table .dropped t = .ok e) :
    Token.ofText table (Blanks.dropped.clean e.render) = .ok e.tokens := by
  cases hbalanced : e.isBalanced with
  | true =>
    have htokens := e.tokens_ofText
    rw [(text_of_ofText? h).1] at htokens
    rw [Blanks.clean, withoutBlanks_render h hbalanced, htokens]
  | false =>
    rw [render_of_not_isBalanced hbalanced, tokens_of_not_isBalanced hbalanced]
    rfl

/-- A balanced expression is what is read from what it is written as. -/
theorem ofText?_render (h : ofText? table .dropped t = .ok e) (hbalanced : e.isBalanced = true) :
    ofText? table .dropped e.render = .ok e :=
  ofText?_eq_ok_iff.2 ⟨(text_of_ofText? h).1, (withoutBlanks_render h hbalanced).symm⟩

/-- Expressions over one table are the same if they are equal. -/
theorem eq_of_sameAs (htable : e.table = f.table) (h : e.sameAs f = true) : e = f :=
  eq_of_table_text htable (sameAs_iff.1 h).1

/-- Writing an expression out and reading it back, where blanks are dropped. The tokens come
    back with their numbers and arities. If the expression is balanced, the names of its
    tokens make up its text, and the expression comes back. Two balanced expressions over one
    table are equal exactly if their tokens are, or what they are written as, or the texts that
    they were read from up to blanks; then their hashes agree, and their tokens in reverse
    Polish order with all numbers. -/
theorem render_round_trip (h : ofText? table .dropped t = .ok e) :
    Token.ofText table (Blanks.dropped.clean e.render) = .ok e.tokens ∧
      (e.isBalanced = true →
        (e.tokens.map Token.name).flatten = e.text ∧
          ofText? table .dropped e.render = .ok e ∧ e.sameAs e = true) ∧
      ∀ {u : Text} {f : Expression}, ofText? table .dropped u = .ok f → e.isBalanced = true →
        f.isBalanced = true →
        List.TFAE [e.sameAs f = true,
            List.Forall₂ (fun s t => s.sameAs t = true) e.tokens f.tokens,
            e.render = f.render,
            withoutBlanks t = withoutBlanks u] ∧
          (e.sameAs f = true → (∀ digest, e.hashBy digest = f.hashBy digest) ∧ e.rpn = f.rpn) := by
  refine ⟨ofText_render h, fun hbalanced => ⟨flatten_names hbalanced, ofText?_render h hbalanced,
    sameAs_refl e⟩, ?_⟩
  intro u f hf he_balanced hf_balanced
  obtain ⟨he_table, he_text⟩ := text_of_ofText? h
  obtain ⟨hf_table, hf_text⟩ := text_of_ofText? hf
  have htable : e.table = f.table := he_table.trans hf_table.symm
  constructor
  · tfae_have 1 → 2 := fun hsame => by
      rw [eq_of_sameAs htable hsame]
      exact List.forall₂_same.2 fun s _ => s.sameAs_refl
    tfae_have 2 → 3 := fun htokens => by
      rw [render, render, Token.spacedNames, Token.spacedNames,
        Token.map_name_eq_of_sameAs htokens]
    tfae_have 3 → 4 := fun hrender => by
      rw [← Blanks.clean, ← Blanks.clean, ← he_text, ← hf_text,
        ← withoutBlanks_render h he_balanced, ← withoutBlanks_render hf hf_balanced, hrender]
    tfae_have 4 → 1 := fun hblanks =>
      sameAs_iff.2 ⟨by rw [he_text, hf_text]; exact hblanks, by rw [htable]⟩
    tfae_finish
  · intro hsame
    exact ⟨hashBy_eq_of_sameAs hsame, by rw [eq_of_sameAs htable hsame]⟩

/-- Without their blanks `1 e+x` and `1e + x` are one sum of two variables, the first of them
    named like the beginning of a number. -/
theorem render_round_trip_cut_name :
    ∃ e f : Expression,
      ofText? Function.standard .dropped "1 e+x".toList = .ok e ∧
        ofText? Function.standard .dropped "1e + x".toList = .ok f ∧
          ofText? Function.standard .dropped e.render = .ok e ∧
            e.sameAs f = true ∧ e.rpn = f.rpn := by
  let e : Expression := ⟨Function.standard, "1e+x".toList,
    [.reference "1e".toList, .ofOperator (.binary .add), .reference ['x']], rfl⟩
  have he : ofText? Function.standard .dropped "1 e+x".toList = .ok e :=
    ofText?_eq_ok_iff.2 ⟨rfl, by decide⟩
  have hf : ofText? Function.standard .dropped "1e + x".toList = .ok e :=
    ofText?_eq_ok_iff.2 ⟨rfl, by decide⟩
  have hbalanced : e.isBalanced = true := by decide
  obtain ⟨-, hback, hequal⟩ := render_round_trip he
  obtain ⟨htfae, hconsequences⟩ := hequal hf hbalanced hbalanced
  have hsame : e.sameAs e = true := (htfae.out 3 0).1 (by decide)
  exact ⟨e, e, he, hf, (hback hbalanced).2.1, hsame, (hconsequences hsame).2⟩

end Expression

end Formula
