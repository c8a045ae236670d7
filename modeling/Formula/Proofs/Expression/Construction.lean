/-
  Formula.Proofs.Expression.Construction

  When the construction of an expression fails.

  Two recognisers of numbers work one after the other on a piece: it is recognised as a
  numeral, and then converted. They accept the same pieces but for the words for infinity
  that are written with a foreign letter (`isForeignInfinity_iff_of_mem_pieces`). The first of
  these words in a text whose parentheses match is what the construction of its expression
  fails at (`Expression.ofText?_eq_error_iff_pieces`), and nothing else can fail, the conversion
  to reverse Polish order included (`Expression.ofTokens?_tokens`).
-/
import Formula.Proofs.Decimal.Foreign
import Formula.Proofs.Polish.Order
import Formula.Proofs.Token.Reading
import Formula.Expression

namespace Formula

open Numeral (IsForeignInfinity)

variable {table : List Function} {p text : Text} {t : Token} {ts : List Token} {fault : Fault}

/-! ## Pieces -/

/-- A text without delimiters has no sign. -/
theorem ofText?_withMinus_of_not_isDelimiter (h : ∀ c ∈ p, isDelimiter c = false) :
    withMinus p = p ∧ Numeral.ofText? p = Numeral.ofUnsigned? false p := by
  cases p with
  | nil => exact ⟨rfl, rfl⟩
  | cons c p =>
    have hc : isDelimiter c = false := h c (List.mem_cons_self ..)
    constructor
    · unfold withMinus
      split
      · rename_i heq
        exact absurd (List.cons.inj heq).1 (ne_of_isDelimiter hc (by decide))
      · rfl
    · unfold Numeral.ofText?
      split
      · rename_i heq
        exact absurd (List.cons.inj heq).1 (ne_of_isDelimiter hc (by decide))
      · rename_i heq
        exact absurd (List.cons.inj heq).1 (ne_of_isDelimiter hc (by decide))
      · rfl

/-- A delimiter is no word for infinity. -/
theorem not_isForeignInfinity_singleton (c : Char) : ¬ IsForeignInfinity [c] := by
  rintro ⟨hword, -⟩
  simp [Numeral.infinityWords] at hword

/-- The pieces that are recognised as numerals and not converted are the words for infinity
    with a foreign letter. -/
theorem isForeignInfinity_iff_of_mem_pieces (hp : p ∈ pieces text) :
    IsForeignInfinity p ↔
      (Numeral.ofText? (withMinus p)).isSome = true ∧ readLoosely? (withMinus p) = none := by
  rcases delimiter_of_mem_pieces hp with ⟨c, hc, rfl⟩ | hnone
  · -- A delimiter is neither.
    refine ⟨fun h => absurd h (not_isForeignInfinity_singleton c), fun h => ?_⟩
    have herror := readNumber_eq_error_iff.2 ⟨h, rfl⟩
    rw [readNumber_delimiter hc] at herror
    cases herror
  · obtain ⟨hminus, hunsigned⟩ := ofText?_withMinus_of_not_isDelimiter hnone
    rw [Numeral.isForeignInfinity_iff false, ← hunsigned, hminus]
    exact and_congr_right fun hsome => (readLoosely?_eq_none_iff hsome).symm

/-- A piece of a text cannot be read exactly if it is such a word. -/
theorem readNumber_piece (hp : p ∈ pieces text) :
    readNumber p = .error fault ↔ IsForeignInfinity p ∧ fault = .unreadable p := by
  rw [readNumber_eq_error_iff, ← isForeignInfinity_iff_of_mem_pieces hp]
  apply and_congr_right
  intro hforeign
  rcases delimiter_of_mem_pieces hp with ⟨c, -, rfl⟩ | hnone
  · exact absurd hforeign (not_isForeignInfinity_singleton c)
  · rw [(ofText?_withMinus_of_not_isDelimiter hnone).1]

namespace Token

/-- Whether a piece can be read does not depend on the table. -/
theorem ofPiece_eq_error_iff : ofPiece table p = .error fault ↔ readNumber p = .error fault := by
  rw [ofPiece]
  cases readNumber p with
  | error fault' =>
    constructor
    · intro h
      cases h
      rfl
    · intro h
      cases h
      rfl
  | ok x =>
    constructor
    · intro h
      cases x with
      | none => cases h
      | some x => cases h
    · intro h
      cases h

theorem exists_ofPiece_iff (hp : p ∈ pieces text) :
    (∃ t, ofPiece table p = .ok t) ↔ ¬ IsForeignInfinity p := by
  constructor
  · rintro ⟨t, ht⟩ hforeign
    have herror : ofPiece table p = .error (.unreadable p) :=
      ofPiece_eq_error_iff.2 ((readNumber_piece hp).2 ⟨hforeign, rfl⟩)
    cases ht.symm.trans herror
  · intro hforeign
    cases h : ofPiece table p with
    | ok t => exact ⟨t, rfl⟩
    | error fault => exact absurd ((readNumber_piece hp).1 (ofPiece_eq_error_iff.1 h)).1 hforeign

/-- The pieces of a text cannot be read exactly if one of them is a word for infinity with a
    foreign letter. The first such word is what the failure carries. -/
theorem ofPieces_pieces_eq_error_iff (table : List Function) :
    ofPieces table (pieces text) = .error fault ↔
      ∃ before p after, pieces text = before ++ p :: after ∧
        (∀ q ∈ before, ¬ IsForeignInfinity q) ∧ IsForeignInfinity p ∧ fault = .unreadable p := by
  rw [ofPieces_eq_error_iff]
  apply exists_congr
  intro before
  apply exists_congr
  intro p
  apply exists_congr
  intro after
  apply and_congr_right
  intro hpieces
  have hmem : ∀ q ∈ before ++ p :: after, q ∈ pieces text := fun q hq => hpieces ▸ hq
  have hp : p ∈ pieces text := hmem p (List.mem_append_right _ (List.mem_cons_self ..))
  rw [ofPiece_eq_error_iff, readNumber_piece hp]
  apply and_congr_left
  intro _
  apply forall₂_congr
  intro q hq
  exact exists_ofPiece_iff (hmem q (List.mem_append_left _ hq))

/-- No word is a number. -/
theorem kind_ofWord_ne_number (table : List Function) (p : Text) :
    (ofWord table p).kind ≠ .number := by
  intro hkind
  rcases ofWord_cases table p with ⟨-, hword⟩ | ⟨op, hword⟩ | hword | hword | hword
  all_goals
    rw [hword] at hkind
    cases hkind

/-- Every number token of a text has the number that its piece is read as. -/
theorem exists_value_of_ofPiece (h : ofPiece table p = .ok t) (hkind : t.kind = .number) :
    ∃ x, readNumber p = .ok (some x) ∧ t.value = some x := by
  unfold ofPiece at h
  split at h
  · cases h
  · rename_i x hread
    cases h
    exact ⟨x, hread, rfl⟩
  · cases h
    exact absurd hkind (kind_ofWord_ne_number table p)

end Token

namespace Expression

/-- The tokens of an expression can be put in reverse Polish order. -/
theorem ofTokens?_tokens (e : Expression) : Polish.ofTokens? e.tokens = .ok e.rpn := by
  apply ofTokens?_eq_ok
  intro t ht hkind
  obtain ⟨p, -, hp⟩ := Token.exists_piece_of_mem_ofText e.tokens_ofText ht
  obtain ⟨x, -, hvalue⟩ := Token.exists_value_of_ofPiece hp hkind
  rw [hvalue]
  rfl

variable {blanks : Blanks}

/-- What the construction of an expression fails at. -/
theorem ofText?_eq_error_iff_pieces :
    ofText? table blanks text = .error fault ↔
      Formula.isBalanced (blanks.clean text) = true ∧
        ∃ before p after, pieces (blanks.clean text) = before ++ p :: after ∧
          (∀ q ∈ before, ¬ IsForeignInfinity q) ∧ IsForeignInfinity p ∧
            fault = .unreadable p := by
  rw [ofText?_eq_error_iff, Token.ofText, ← Token.ofPieces_pieces_eq_error_iff table]
  cases Formula.isBalanced (blanks.clean text) with
  | true => exact ⟨fun h => ⟨rfl, h⟩, fun h => h.2⟩
  | false =>
    constructor
    · intro h
      cases h
    · rintro ⟨hbalanced, -⟩
      cases hbalanced

/-- An expression can be built unless its parentheses match and it has such a word. -/
theorem exists_ofText?_iff (table : List Function) :
    (∃ e, ofText? table blanks text = .ok e) ↔
      (Formula.isBalanced (blanks.clean text) = true →
        ∀ p ∈ pieces (blanks.clean text), ¬ IsForeignInfinity p) := by
  constructor
  · rintro ⟨e, he⟩ hbalanced p hp
    obtain ⟨rfl, htext⟩ := text_of_ofText? he
    rw [← htext] at hbalanced hp
    -- The piece is the name of a token, which it is then read as.
    have hname : p ∈ e.tokens.map Token.name := by
      rwa [Token.map_name_of_ofPieces (ofPieces_of_isBalanced hbalanced)]
    obtain ⟨t, ht, rfl⟩ := List.mem_map.1 hname
    obtain ⟨q, hq, hread⟩ := Token.exists_piece_of_mem_ofText e.tokens_ofText ht
    rw [Token.name_ofPiece hread]
    exact (Token.exists_ofPiece_iff hq).1 ⟨t, hread⟩
  · intro h
    cases hread : ofText? table blanks text with
    | ok e => exact ⟨e, rfl⟩
    | error fault =>
      obtain ⟨hbalanced, before, p, after, hpieces, -, hforeign, -⟩ :=
        ofText?_eq_error_iff_pieces.1 hread
      have hp : p ∈ pieces (blanks.clean text) := by
        rw [hpieces]
        exact List.mem_append_right before (List.mem_cons_self ..)
      exact absurd hforeign (h hbalanced p hp)

/-- A text whose parentheses do not match gives an expression without tokens. -/
theorem exists_ofText?_of_not_isBalanced (h : Formula.isBalanced (blanks.clean text) = false) :
    ∃ e, ofText? table blanks text = .ok e ∧ e.isBalanced = false ∧ e.tokens = [] ∧ e.rpn = [] := by
  obtain ⟨e, he⟩ := (exists_ofText?_iff table).2 fun hbalanced => by
    rw [h] at hbalanced
    cases hbalanced
  have hbalanced : e.isBalanced = false := by rw [isBalanced, (text_of_ofText? he).2, h]
  have htokens : e.tokens = [] := tokens_of_not_isBalanced hbalanced
  refine ⟨e, he, hbalanced, htokens, ?_⟩
  rw [rpn, htokens]
  rfl

/-- The construction of an expression, over every table.

    It succeeds, conversion to reverse Polish order included, exactly if the parentheses do not
    match or no piece of the text is a word for infinity with a foreign letter in it. In a text
    whose parentheses match, the first such word is what it fails at. A text whose parentheses
    do not match gives an expression without tokens.

    Of the pieces that are recognised as numerals, exactly these words are not converted. -/
theorem ofText?_fails_iff (table : List Function) (blanks : Blanks) (text : Text) :
    ((∃ e, ofText? table blanks text = .ok e ∧ Polish.ofTokens? e.tokens = .ok e.rpn) ↔
      (Formula.isBalanced (blanks.clean text) = true →
        ∀ p ∈ pieces (blanks.clean text), ¬ IsForeignInfinity p)) ∧
    (∀ fault, ofText? table blanks text = .error fault ↔
      Formula.isBalanced (blanks.clean text) = true ∧
        ∃ before p after, pieces (blanks.clean text) = before ++ p :: after ∧
          (∀ q ∈ before, ¬ IsForeignInfinity q) ∧ IsForeignInfinity p ∧
            fault = .unreadable p) ∧
    (Formula.isBalanced (blanks.clean text) = false →
      ∃ e, ofText? table blanks text = .ok e ∧ e.isBalanced = false ∧ e.tokens = [] ∧
        e.rpn = []) ∧
    ∀ p ∈ pieces text, IsForeignInfinity p ↔
      (Numeral.ofText? (withMinus p)).isSome = true ∧ readLoosely? (withMinus p) = none := by
  refine ⟨?_, fun fault => ofText?_eq_error_iff_pieces, exists_ofText?_of_not_isBalanced,
    fun p hp => isForeignInfinity_iff_of_mem_pieces hp⟩
  rw [← exists_ofText?_iff table]
  apply exists_congr
  intro e
  exact and_iff_left (ofTokens?_tokens e)

/-- A foreign letter by itself is a variable, and a word for infinity with it does no harm in a
    text whose parentheses do not match. -/
theorem ofText?_fails_iff_variable :
    (∃ e, ofText? Function.standard .dropped "İ + 1".toList = .ok e ∧
      Polish.ofTokens? e.tokens = .ok e.rpn) ∧
    ∃ e, ofText? Function.standard .dropped "(ınf".toList = .ok e ∧ e.isBalanced = false ∧
      e.tokens = [] ∧ e.rpn = [] := by
  have hpieces : ∀ p ∈ pieces (Blanks.dropped.clean "İ + 1".toList), ¬ IsForeignInfinity p := by
    decide
  have hunmatched : Formula.isBalanced (Blanks.dropped.clean "(ınf".toList) = false := by decide
  exact ⟨(ofText?_fails_iff Function.standard .dropped "İ + 1".toList).1.2 fun _ => hpieces,
    (ofText?_fails_iff Function.standard .dropped "(ınf".toList).2.2.1 hunmatched⟩

/-- The word `ınf` is recognised as a numeral and not converted, and no expression is built
    from it. -/
theorem ofText?_foreign_infinity :
    ofText? Function.standard .dropped "ınf".toList = .error (.unreadable "ınf".toList) ∧
      pieces "ınf".toList = ["ınf".toList] ∧
        Numeral.ofText? (withMinus "ınf".toList) = some (.infinity false) ∧
          readLoosely? (withMinus "ınf".toList) = none :=
  ⟨rfl, rfl, rfl, rfl⟩

end Expression

end Formula
