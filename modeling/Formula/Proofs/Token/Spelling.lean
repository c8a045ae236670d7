/-
  Formula.Proofs.Token.Spelling

  Formulas as texts: the pieces that a text is cut into, with the roles they have in the
  grammar.

    * `Piece.IsName p` — `p` can name a variable or a function: it is not empty, has
      neither delimiters nor blanks, and is not read as a number.
    * `Piece.Is table r p` — the piece `p` has the role `r`, given the functions of `table`.
    * `Piece.token table p` — the token of a piece that can be read.
    * `Spread s t` — `t` is `s` with blanks inserted, anywhere and any number of them.

  `Piece.Is.token` says that reading keeps roles, provided that no function of the table
  is named by a delimiter. `Writes.pieces_flatten` says that the pieces of a formula written
  out and cut again are the same pieces: two pieces side by side are never both without
  delimiters.
-/
import Formula.Proofs.Decimal.Characters
import Formula.Proofs.Polish.Postorder
import Formula.Token.Reading

namespace Formula

/-! ## Delimiters -/

/-- No delimiter is read as a number. -/
theorem readNumber_delimiter {c : Char} (h : isDelimiter c = true) :
    readNumber [c] = .ok none := by
  have hnone : delimiters.all (fun c => (Numeral.ofText? (withMinus [c])).isNone) = true := by
    decide
  have hc := List.all_eq_true.1 hnone c (List.contains_iff_mem.1 h)
  rw [readNumber, Option.isNone_iff_eq_none.1 hc]

namespace Operator

/-- An operator is written by a delimiter that is no parenthesis. -/
theorem symbol_delimiter (op : Operator) :
    isDelimiter op.symbol = true ∧ op.symbol ≠ '(' ∧ op.symbol ≠ ')' := by
  cases op with
  | negation => decide
  | binary b => cases b <;> decide

theorem not_isBlank_symbol (op : Operator) : isBlank op.symbol = false := by
  cases op with
  | negation => decide
  | binary b => cases b <;> decide

theorem ofName?_eq_none {p : Text} (h : ∀ c ∈ p, isDelimiter c = false) : ofName? p = none := by
  cases hop : ofName? p with
  | none => rfl
  | some op =>
    rw [ofName?_eq_some_iff.1 hop] at h
    have hsymbol := h op.symbol (List.mem_singleton_self _)
    rw [op.symbol_delimiter.1] at hsymbol
    cases hsymbol

end Operator

/-! ## Pieces -/

namespace Piece

/-- Pieces that can name a variable or a function. -/
structure IsName (p : Text) : Prop where
  ne_nil : p ≠ []
  not_delimiter : ∀ c ∈ p, isDelimiter c = false
  not_blank : ∀ c ∈ p, isBlank c = false
  not_number : readNumber p = .ok none

/-- The role of a piece in the grammar. -/
def Is (table : List Function) : Role → Text → Prop
  | .number, p => (∀ c ∈ p, isDelimiter c = false) ∧ ∃ x, readNumber p = .ok (some x)
  | .reference, p => IsName p ∧ p ∉ Function.names table
  | .function, p => IsName p ∧ p ∈ Function.names table
  | .opening, p => p = ['(']
  | .closing, p => p = [')']
  | .operator op, p => p = op.name

/-- The token of a piece that can be read. -/
def token (table : List Function) (p : Text) : Token :=
  match readNumber p with
  | .ok (some x) => .number p x
  | _ => .ofWord table p

variable {table : List Function} {p : Text} {r : Role} {x : Float}

theorem token_of_number (h : readNumber p = .ok (some x)) : token table p = .number p x := by
  unfold token
  rw [h]

theorem token_of_word (h : readNumber p = .ok none) : token table p = .ofWord table p := by
  unfold token
  rw [h]

@[simp] theorem name_token (table : List Function) (p : Text) : (token table p).name = p := by
  unfold token
  split
  · rfl
  · exact Token.name_ofWord table p

theorem ofWord_of_mem (h : p ∈ Function.names table) : Token.ofWord table p = .function p := by
  obtain ⟨f, hf, hname⟩ := List.mem_map.1 h
  have hfind : (Function.find? table p).isSome = true :=
    List.find?_isSome.2 ⟨f, hf, decide_eq_true hname⟩
  rw [Token.ofWord, if_pos hfind]

/-- A piece that is not in the table is an operator, a parenthesis or a variable. -/
theorem ofWord_of_not_mem (h : p ∉ Function.names table) :
    Token.ofWord table p =
      match Operator.ofName? p with
      | some op => .ofOperator op
      | none =>
        if p = ['('] then .leftParen
        else if p = [')'] then .rightParen
        else .reference p := by
  have hfind : ¬ (Function.find? table p).isSome = true := by
    intro hsome
    obtain ⟨f, hf, hname⟩ := List.find?_isSome.1 hsome
    exact h (List.mem_map.2 ⟨f, hf, of_decide_eq_true hname⟩)
  unfold Token.ofWord
  exact if_neg hfind

/-- Pieces with a role are numbers or words: none of them is unreadable. -/
theorem Is.readNumber (h : Is table r p) :
    (∃ x, readNumber p = .ok (some x)) ∨ readNumber p = .ok none := by
  cases r with
  | number => exact .inl h.2
  | reference => exact .inr h.1.not_number
  | function => exact .inr h.1.not_number
  | opening =>
    obtain rfl : p = ['('] := h
    exact .inr (readNumber_delimiter (by decide))
  | closing =>
    obtain rfl : p = [')'] := h
    exact .inr (readNumber_delimiter (by decide))
  | operator op =>
    obtain rfl : p = op.name := h
    exact .inr (readNumber_delimiter op.symbol_delimiter.1)

theorem Is.ofPiece (h : Is table r p) : Token.ofPiece table p = .ok (token table p) := by
  unfold Token.ofPiece token
  rcases h.readNumber with ⟨x, hx⟩ | hword
  · rw [hx]
  · rw [hword]

/-- Reading a piece keeps its role. -/
theorem Is.token (hdelimiter : ∀ c, isDelimiter c = true → [c] ∉ Function.names table)
    (h : Is table r p) : Token.Is r (token table p) := by
  cases r with
  | number =>
    obtain ⟨-, x, hx⟩ := h
    rw [token_of_number hx]
    exact ⟨rfl, rfl⟩
  | reference =>
    obtain ⟨hname, hmem⟩ := h
    -- A name has no delimiter in it, so it is neither a parenthesis nor an operator.
    have hopen : p ≠ ['('] := by
      rintro rfl
      exact absurd (hname.not_delimiter '(' (List.mem_singleton_self _)) (by decide)
    have hclose : p ≠ [')'] := by
      rintro rfl
      exact absurd (hname.not_delimiter ')' (List.mem_singleton_self _)) (by decide)
    rw [token_of_word hname.not_number, ofWord_of_not_mem hmem,
      Operator.ofName?_eq_none hname.not_delimiter]
    simp only [if_neg hopen, if_neg hclose]
    rfl
  | function =>
    obtain ⟨hname, hmem⟩ := h
    rw [token_of_word hname.not_number, ofWord_of_mem hmem]
    rfl
  | opening =>
    obtain rfl : p = ['('] := h
    rw [token_of_word (readNumber_delimiter (by decide)),
      ofWord_of_not_mem (hdelimiter '(' (by decide))]
    rfl
  | closing =>
    obtain rfl : p = [')'] := h
    rw [token_of_word (readNumber_delimiter (by decide)),
      ofWord_of_not_mem (hdelimiter ')' (by decide))]
    rfl
  | operator op =>
    obtain rfl : p = op.name := h
    have hsymbol := op.symbol_delimiter.1
    have hmem : op.name ∉ Function.names table := hdelimiter op.symbol hsymbol
    rw [token_of_word (show Formula.readNumber op.name = _ from readNumber_delimiter hsymbol),
      ofWord_of_not_mem hmem, Operator.ofName?_name]
    exact Operator.ofName?_name op

theorem Is.not_isBlank (h : Is table r p) : ∀ c ∈ p, isBlank c = false := by
  cases r with
  | number =>
    obtain ⟨-, x, hx⟩ := h
    exact not_isBlank_of_readNumber hx
  | reference => exact h.1.not_blank
  | function => exact h.1.not_blank
  | opening =>
    obtain rfl : p = ['('] := h
    exact List.forall_mem_singleton.2 (by decide)
  | closing =>
    obtain rfl : p = [')'] := h
    exact List.forall_mem_singleton.2 (by decide)
  | operator op =>
    obtain rfl : p = op.name := h
    exact List.forall_mem_singleton.2 op.not_isBlank_symbol

end Piece

/-! ## Formulas -/

variable {table : List Function} {ps : List Text} {tree : Tree Text}

theorem Writes.ofPieces (h : Writes (Piece.Is table) ps tree) :
    Token.ofPieces table ps = .ok (ps.map (Piece.token table)) := by
  have hread : ∀ p ∈ ps, Token.ofPiece table p = .ok (Piece.token table p) := by
    intro p hp
    obtain ⟨r, hr⟩ := h.exists_role p hp
    exact hr.ofPiece
  clear h
  induction ps with
  | nil => rfl
  | cons p ps ih =>
    obtain ⟨hp, hps⟩ := List.forall_mem_cons.1 hread
    rw [Token.ofPieces_cons, hp, ih hps]
    rfl

theorem Writes.not_isBlank_flatten (h : Writes (Piece.Is table) ps tree) :
    ∀ c ∈ ps.flatten, isBlank c = false := by
  intro c hc
  obtain ⟨p, hp, hcp⟩ := List.mem_flatten.1 hc
  obtain ⟨r, hr⟩ := h.exists_role p hp
  exact hr.not_isBlank c hcp

/-- A formula written out is cut into its pieces. -/
theorem Writes.pieces_flatten (h : Writes (Piece.Is table) ps tree) :
    pieces ps.flatten = ps := by
  induction h with
  | @number p hp =>
    obtain ⟨hdelimiter, x, hx⟩ := hp
    -- The empty text writes no number.
    have hne : p ≠ [] := by
      rintro rfl
      cases hx
    rw [List.flatten_singleton, pieces_of_not_isDelimiter hne hdelimiter]
  | @reference p hp =>
    rw [List.flatten_singleton, pieces_of_not_isDelimiter hp.1.ne_nil hp.1.not_delimiter]
  | @negation ps o t ho _ ih =>
    obtain rfl : o = Operator.negation.name := ho
    rw [List.flatten_cons, Operator.name, List.singleton_append,
      pieces_cons_delimiter (by decide), ih]
  | @binary ps qs o t u op _ ho _ iht ihu =>
    -- The operator is a delimiter, so the text is cut there and both sides on their own.
    obtain rfl : o = (Operator.binary op).name := ho
    rw [List.flatten_append, List.flatten_cons, Operator.name, List.singleton_append,
      pieces_delimiter (Operator.symbol_delimiter _).1, iht, ihu]
  | @group ps l r t hl _ hr ih =>
    obtain rfl : l = ['('] := hl
    obtain rfl : r = [')'] := hr
    rw [List.flatten_cons, List.flatten_append, List.flatten_singleton, List.singleton_append,
      pieces_cons_delimiter (by decide), pieces_delimiter (by decide), ih, pieces]
  | @call ps f l r t hf hl _ hr ih =>
    obtain rfl : l = ['('] := hl
    obtain rfl : r = [')'] := hr
    rw [List.flatten_cons, List.flatten_cons, List.flatten_append, List.flatten_singleton,
      List.singleton_append, pieces_delimiter (by decide), pieces_delimiter (by decide), ih, pieces,
      pieces_of_not_isDelimiter hf.1.ne_nil hf.1.not_delimiter, List.singleton_append]

/-- The parentheses of a formula match in every surrounding text. -/
theorem Writes.isBalancedFrom_flatten (h : Writes (Piece.Is table) ps tree) :
    ∀ (opened : Nat) (rest : Text),
      isBalancedFrom opened (ps.flatten ++ rest) = isBalancedFrom opened rest := by
  induction h with
  | @number p hp =>
    intro opened rest
    rw [List.flatten_singleton, isBalancedFrom_append hp.1]
  | @reference p hp =>
    intro opened rest
    rw [List.flatten_singleton, isBalancedFrom_append hp.1.not_delimiter]
  | @negation ps o t ho _ ih =>
    intro opened rest
    obtain rfl : o = Operator.negation.name := ho
    rw [List.flatten_cons, Operator.name, List.singleton_append, List.cons_append,
      isBalancedFrom_cons (by decide) (by decide), ih]
  | @binary ps qs o t u op _ ho _ iht ihu =>
    intro opened rest
    obtain rfl : o = (Operator.binary op).name := ho
    obtain ⟨-, hopen, hclose⟩ := (Operator.binary op).symbol_delimiter
    rw [List.flatten_append, List.flatten_cons, Operator.name, List.append_assoc, iht,
      List.singleton_append, List.cons_append, isBalancedFrom_cons hopen hclose, ihu]
  | @group ps l r t hl _ hr ih =>
    intro opened rest
    obtain rfl : l = ['('] := hl
    obtain rfl : r = [')'] := hr
    rw [List.flatten_cons, List.flatten_append, List.flatten_singleton, List.singleton_append,
      List.cons_append, List.append_assoc, isBalancedFrom_open, ih, List.singleton_append,
      isBalancedFrom_close]
  | @call ps f l r t hf hl _ hr ih =>
    intro opened rest
    obtain rfl : l = ['('] := hl
    obtain rfl : r = [')'] := hr
    rw [List.flatten_cons, List.flatten_cons, List.flatten_append, List.flatten_singleton,
      List.append_assoc, isBalancedFrom_append hf.1.not_delimiter, List.singleton_append,
      List.cons_append, List.append_assoc, isBalancedFrom_open, ih, List.singleton_append,
      isBalancedFrom_close]

/-! ## Blanks -/

/-- One text is another one with blanks inserted. -/
inductive Spread : Text → Text → Prop where
  | nil : Spread [] []
  | keep {s t : Text} (c : Char) : Spread s t → Spread (c :: s) (c :: t)
  | insert {s t : Text} {c : Char} : isBlank c = true → Spread s t → Spread s (c :: t)

/-- What is inserted into a text without blanks is removed again. -/
theorem Spread.withoutBlanks_eq {s t : Text} (h : Spread s t)
    (hs : ∀ c ∈ s, isBlank c = false) : withoutBlanks t = s := by
  induction h with
  | nil => rfl
  | keep c _ ih =>
    obtain ⟨hc, hs⟩ := List.forall_mem_cons.1 hs
    rw [withoutBlanks_cons_of_not_isBlank hc, ih hs]
  | insert hc _ ih => rw [withoutBlanks_cons_of_isBlank hc, ih hs]

end Formula
