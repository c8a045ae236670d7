/-
  Formula.Token.Reading

  Tokens read from text.

  A piece of a formula is, in this order: a number, a function of the table, an
  operator, a parenthesis, or a reference to a variable. A text whose parentheses do
  not match has no tokens.

    * `Token.ofPiece table p` — the token of one piece. It fails exactly if the
      piece has the shape of a number that cannot be converted.
    * `Token.ofText table t` — the tokens of a text.
    * `Blanks` — whether the blanks of a formula are dropped before it is read.
-/
import Formula.Decimal.Reading
import Formula.Function.Basic
import Formula.Text.Pieces
import Formula.Token.Basic

namespace Formula

/-- What happens to blanks before a formula is read. -/
inductive Blanks where
  | dropped
  | kept
  deriving DecidableEq, Repr

/-- A formula as it is read: without its blanks, unless they are kept. -/
def Blanks.clean : Blanks → Text → Text
  | dropped, t => withoutBlanks t
  | kept, t => t

namespace Token

/-- The token of a piece that is no number. -/
def ofWord (table : List Function) (p : Text) : Token :=
  if (Function.find? table p).isSome then function p
  else
    match Operator.ofName? p with
    | some op => ofOperator op
    | none =>
      if p = ['('] then leftParen
      else if p = [')'] then rightParen
      else reference p

def ofPiece (table : List Function) (p : Text) : Except Fault Token :=
  match readNumber p with
  | .error fault => .error fault
  | .ok (some x) => .ok (number p x)
  | .ok none => .ok (ofWord table p)

def ofPieces (table : List Function) (ps : List Text) : Except Fault (List Token) :=
  ps.mapM (ofPiece table)

/-- The tokens of a text, none if its parentheses do not match. -/
def ofText (table : List Function) (t : Text) : Except Fault (List Token) :=
  if isBalanced t then ofPieces table (pieces t) else .ok []

/-- A word is a function of the table, an operator, a parenthesis or a variable. -/
theorem ofWord_cases (table : List Function) (p : Text) :
    ((Function.find? table p).isSome = true ∧ ofWord table p = function p) ∨
      (∃ op, ofWord table p = ofOperator op) ∨ ofWord table p = leftParen ∨
        ofWord table p = rightParen ∨ ofWord table p = reference p := by
  unfold ofWord
  split
  · rename_i hfound
    exact .inl ⟨hfound, rfl⟩
  · split
    · rename_i op _
      exact .inr (.inl ⟨op, rfl⟩)
    · split
      · exact .inr (.inr (.inl rfl))
      · split
        · exact .inr (.inr (.inr (.inl rfl)))
        · exact .inr (.inr (.inr (.inr rfl)))

/-- A piece that can be read is a number or a word. -/
theorem ofPiece_cases {table : List Function} {p : Text} {t : Token}
    (h : ofPiece table p = .ok t) : (∃ x, t = number p x) ∨ t = ofWord table p := by
  unfold ofPiece at h
  split at h
  · cases h
  · rename_i x _
    exact .inl ⟨x, (Except.ok.inj h).symm⟩
  · exact .inr (Except.ok.inj h).symm

/-! ## Names -/

/-- A piece keeps its text as the name of its token. -/
theorem name_ofWord (table : List Function) (p : Text) : (ofWord table p).name = p := by
  unfold ofWord
  split
  · rfl
  · split
    · rename_i op h
      exact (Operator.ofName?_eq_some_iff.1 h).symm
    · split
      · simp_all [leftParen]
      · split <;> simp_all [rightParen, reference]

theorem name_ofPiece {table : List Function} {p : Text} {t : Token}
    (h : ofPiece table p = .ok t) : t.name = p := by
  rcases ofPiece_cases h with ⟨x, rfl⟩ | rfl
  · rfl
  · exact name_ofWord table p

/-! ## Lists of pieces -/

@[simp] theorem ofPieces_nil (table : List Function) : ofPieces table [] = .ok [] := rfl

/-- Pieces are read from the front; the first that cannot be read decides. -/
theorem ofPieces_cons (table : List Function) (p : Text) (ps : List Text) :
    ofPieces table (p :: ps) =
      (ofPiece table p).bind fun t => (ofPieces table ps).map fun ts => t :: ts := by
  rw [ofPieces, List.mapM_cons]
  cases ofPiece table p with
  | error fault => rfl
  | ok t =>
    cases hps : ofPieces table ps with
    | error fault =>
      rw [ofPieces] at hps
      rw [hps]
      rfl
    | ok ts =>
      rw [ofPieces] at hps
      rw [hps]
      rfl

theorem exists_piece_of_mem_ofPieces {table : List Function} {ps : List Text} {ts : List Token}
    (h : ofPieces table ps = .ok ts) {t : Token} (ht : t ∈ ts) :
    ∃ p ∈ ps, ofPiece table p = .ok t := by
  induction ps generalizing ts with
  | nil =>
    cases h
    cases ht
  | cons p ps ih =>
    rw [ofPieces_cons] at h
    cases hp : ofPiece table p with
    | error fault =>
      rw [hp] at h
      cases h
    | ok t' =>
      cases hps : ofPieces table ps with
      | error fault =>
        rw [hp, hps] at h
        cases h
      | ok ts' =>
        rw [hp, hps] at h
        cases h
        rcases List.mem_cons.1 ht with rfl | ht
        · exact ⟨p, List.mem_cons_self .., hp⟩
        · obtain ⟨p', hmem, hp'⟩ := ih hps ht
          exact ⟨p', List.mem_cons_of_mem _ hmem, hp'⟩

/-- Every token of a text is the token of one of its pieces. -/
theorem exists_piece_of_mem_ofText {table : List Function} {text : Text} {ts : List Token}
    (h : ofText table text = .ok ts) {t : Token} (ht : t ∈ ts) :
    ∃ p ∈ pieces text, ofPiece table p = .ok t := by
  unfold ofText at h
  split at h
  · exact exists_piece_of_mem_ofPieces h ht
  · cases h
    cases ht

end Token

end Formula
