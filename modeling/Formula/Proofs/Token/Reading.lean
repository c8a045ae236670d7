/-
  Formula.Proofs.Token.Reading

  What the tokens of a text keep of it, whether or not it is a formula.

    * `Token.ofPieces_eq_ok_iff`, `Token.ofPieces_eq_error_iff` — a list is read piece by
      piece, up to the first that cannot be read.
    * `Token.map_name_of_ofPieces` — the names of the tokens are the pieces, so the text is
      their concatenation.
    * `Token.character t`, `Token.written ts` — the parentheses among tokens, as a text. They
      are the parentheses of the text, provided that neither names a function.
-/
import Formula.Proofs.Text.Parentheses
import Formula.Proofs.Token.Spelling
import Formula.Proofs.Traversal

namespace Formula

namespace Token

variable {table : List Function} {ps : List Text} {p text : Text} {t : Token} {ts : List Token}

/-- Pieces are read one by one. -/
theorem ofPieces_eq_ok_iff :
    ofPieces table ps = .ok ts ↔ List.Forall₂ (fun p t => ofPiece table p = .ok t) ps ts :=
  mapM_eq_ok_iff

/-- A list cannot be read exactly if one of its pieces cannot and those before it can. -/
theorem ofPieces_eq_error_iff {fault : Fault} :
    ofPieces table ps = .error fault ↔
      ∃ before p after, ps = before ++ p :: after ∧
        (∀ q ∈ before, ∃ t, ofPiece table q = .ok t) ∧ ofPiece table p = .error fault :=
  mapM_eq_error_iff

/-- The names of tokens are the pieces that they are read from. -/
theorem map_name_of_ofPieces (h : ofPieces table ps = .ok ts) : ts.map name = ps := by
  have hall := ofPieces_eq_ok_iff.1 h
  clear h
  induction hall with
  | nil => rfl
  | cons hp _ ih => rw [List.map_cons, ih, name_ofPiece hp]

/-! ## Parentheses -/

/-- The character of a parenthesis; all other tokens have none. -/
def character (t : Token) : Text :=
  match t.kind with
  | .leftParen => ['(']
  | .rightParen => [')']
  | _ => []

/-- The parentheses of a token list. -/
def written (ts : List Token) : Text :=
  ts.flatMap character

@[simp] theorem written_nil : written [] = [] := rfl

@[simp] theorem written_cons (t : Token) (ts : List Token) :
    written (t :: ts) = character t ++ written ts := rfl

/-- No piece but a parenthesis is read as one. -/
theorem character_of_ofPiece (hopen : p ≠ ['(']) (hclose : p ≠ [')'])
    (h : ofPiece table p = .ok t) : character t = [] := by
  rcases ofPiece_cases h with ⟨x, rfl⟩ | rfl
  · rfl
  · unfold ofWord
    split
    · rfl
    · split
      · rfl
      · rfl

/-- A parenthesis that names no function is read as a parenthesis. -/
theorem character_of_ofPiece_delimiter {c : Char} (hc : c = '(' ∨ c = ')')
    (hmem : [c] ∉ Function.names table) (h : ofPiece table [c] = .ok t) : character t = [c] := by
  have hdelimiter : isDelimiter c = true := by
    rcases hc with rfl | rfl
    · decide
    · decide
  have hword : ofPiece table [c] = .ok (ofWord table [c]) := by
    rw [ofPiece, readNumber_delimiter hdelimiter]
  rw [hword, Piece.ofWord_of_not_mem hmem] at h
  rcases hc with rfl | rfl
  · cases h
    rfl
  · cases h
    rfl

variable (hopen : ['('] ∉ Function.names table) (hclose : [')'] ∉ Function.names table)

include hopen hclose in
/-- A token that is read from a piece of a text has the parentheses of that piece. -/
theorem character_eq_parentheses (hp : p ∈ pieces text) (h : ofPiece table p = .ok t) :
    character t = parentheses p := by
  by_cases hleft : p = ['(']
  · subst hleft
    exact character_of_ofPiece_delimiter (.inl rfl) hopen h
  · by_cases hright : p = [')']
    · subst hright
      exact character_of_ofPiece_delimiter (.inr rfl) hclose h
    · rw [character_of_ofPiece hleft hright h]
      -- The piece is an operator, or it has no delimiters and so no parentheses.
      symm
      apply List.filter_eq_nil_iff.2
      intro c hc
      rcases delimiter_of_mem_pieces hp with ⟨d, -, rfl⟩ | hnone
      · obtain rfl := List.mem_singleton.1 hc
        simpa using And.intro hleft hright
      · have hplain := hnone c hc
        have hleft : c ≠ '(' := ne_of_isDelimiter hplain (by decide)
        have hright : c ≠ ')' := ne_of_isDelimiter hplain (by decide)
        simpa using And.intro hleft hright

include hopen hclose in
/-- The tokens of a text have its parentheses. -/
theorem written_eq_parentheses (h : ofPieces table (pieces text) = .ok ts) :
    written ts = parentheses text := by
  have hpieces : ∀ {ps : List Text} {us : List Token}, (∀ p ∈ ps, p ∈ pieces text) →
      List.Forall₂ (fun p t => ofPiece table p = .ok t) ps us →
      written us = parentheses ps.flatten := by
    intro ps us hps hall
    induction hall with
    | nil => rfl
    | cons hp _ ih =>
      obtain ⟨hmem, hps⟩ := List.forall_mem_cons.1 hps
      rw [written_cons, ih hps, character_eq_parentheses hopen hclose hmem hp, List.flatten_cons,
        parentheses_append]
  rw [hpieces (fun _ hp => hp) (ofPieces_eq_ok_iff.1 h), flatten_pieces]

end Token

end Formula
