/-
  Formula.Text.Pieces

  The character-level structure of a formula.

    * `isDelimiter c` — `c` is a parenthesis or writes an operator.
    * `pieces t` — `t` cut around its delimiters: every delimiter is a piece, and so
      is every longest stretch without one.
    * `isBalanced t` — every closing parenthesis of `t` has an opening one before it,
      and every opening one is closed.

  `flatten_pieces` says that cutting loses nothing, `pieces_delimiter` that a cut
  at a delimiter is a cut of both sides.
-/
import Formula.Text.Basic

namespace Formula

/-- The characters that are a piece of their own wherever they stand. -/
def delimiters : Text :=
  ['(', ')', '+', '-', '*', '/', '^', '~']

/-- Whether a character is a piece of its own wherever it stands. -/
def isDelimiter (c : Char) : Bool :=
  delimiters.contains c

/-- A character that is no delimiter put in front of pieces: it joins the first
    piece unless that is a delimiter. -/
def joinFront (c : Char) : List Text → List Text
  | (d :: p) :: ps => if isDelimiter d then [c] :: (d :: p) :: ps else (c :: d :: p) :: ps
  | ps => [c] :: ps

def pieces : Text → List Text
  | [] => []
  | c :: rest => if isDelimiter c then [c] :: pieces rest else joinFront c (pieces rest)

/-- Whether the parentheses of a text match when `opened` further ones are open
    before it. -/
def isBalancedFrom : (opened : Nat) → Text → Bool
  | opened, [] => opened == 0
  | opened, c :: rest =>
    if c = '(' then isBalancedFrom (opened + 1) rest
    else if c = ')' then
      match opened with
      | 0 => false
      | opened + 1 => isBalancedFrom opened rest
    else isBalancedFrom opened rest

def isBalanced (t : Text) : Bool :=
  isBalancedFrom 0 t

theorem ne_of_isDelimiter {c d : Char} (hc : isDelimiter c = false) (hd : isDelimiter d = true) :
    c ≠ d := by
  rintro rfl
  rw [hc] at hd
  cases hd

/-! ## Cutting -/

theorem joinFront_of_delimiter {c d : Char} (hd : isDelimiter d = true) (p : Text)
    (ps : List Text) : joinFront c ((d :: p) :: ps) = [c] :: (d :: p) :: ps := by
  simp [joinFront, hd]

@[simp] theorem flatten_joinFront (c : Char) (ps : List Text) :
    (joinFront c ps).flatten = c :: ps.flatten := by
  unfold joinFront
  split
  · split <;> simp
  · simp

/-- Cutting loses no character. -/
@[simp] theorem flatten_pieces (t : Text) : (pieces t).flatten = t := by
  induction t with
  | nil => rfl
  | cons c rest ih =>
    rw [pieces]
    split <;> simp [ih]

/-- No piece is empty. -/
theorem ne_nil_of_mem_pieces {t p : Text} (h : p ∈ pieces t) : p ≠ [] := by
  induction t generalizing p with
  | nil => simp [pieces] at h
  | cons c rest ih =>
    rw [pieces] at h
    split at h
    · rcases List.mem_cons.1 h with rfl | h
      · simp
      · exact ih h
    · unfold joinFront at h
      split at h
      · rename_i d q ps heq
        split at h
        · rcases List.mem_cons.1 h with rfl | h
          · simp
          · exact ih (heq ▸ h)
        · rcases List.mem_cons.1 h with rfl | h
          · simp
          · exact ih (heq ▸ List.mem_cons_of_mem _ h)
      · rcases List.mem_cons.1 h with rfl | h
        · simp
        · exact ih h

/-- A piece with a character joined in front is that character, a piece as it was, or a
    piece that begins with no delimiter and now has the character before it. -/
theorem mem_joinFront {c : Char} {ps : List Text} {q : Text} (h : q ∈ joinFront c ps) :
    q = [c] ∨ q ∈ ps ∨ ∃ d p, d :: p ∈ ps ∧ isDelimiter d = false ∧ q = c :: d :: p := by
  unfold joinFront at h
  split at h
  · rename_i d p ps
    split at h
    · rcases List.mem_cons.1 h with hq | hq
      · exact .inl hq
      · exact .inr (.inl hq)
    · rename_i hd
      rcases List.mem_cons.1 h with hq | hq
      · exact .inr (.inr ⟨d, p, List.mem_cons_self .., Bool.eq_false_iff.2 hd, hq⟩)
      · exact .inr (.inl (List.mem_cons_of_mem _ hq))
  · rcases List.mem_cons.1 h with hq | hq
    · exact .inl hq
    · exact .inr (.inl hq)

/-- Every piece is one delimiter or has none. -/
theorem delimiter_of_mem_pieces {t p : Text} (h : p ∈ pieces t) :
    (∃ c, isDelimiter c = true ∧ p = [c]) ∨ ∀ c ∈ p, isDelimiter c = false := by
  induction t generalizing p with
  | nil => cases h
  | cons c rest ih =>
    rw [pieces] at h
    split at h
    · rename_i hc
      rcases List.mem_cons.1 h with hp | hp
      · exact .inl ⟨c, hc, hp⟩
      · exact ih hp
    · rename_i hc
      have hplain : isDelimiter c = false := Bool.eq_false_iff.2 hc
      rcases mem_joinFront h with rfl | hp | ⟨d, q, hq, hd, rfl⟩
      · exact .inr (List.forall_mem_singleton.2 hplain)
      · exact ih hp
      · -- What `c` is joined to is no delimiter, so it has none.
        rcases ih hq with ⟨e, he, heq⟩ | hnone
        · rw [(List.cons.inj heq).1, he] at hd
          cases hd
        · exact .inr (List.forall_mem_cons.2 ⟨hplain, hnone⟩)

/-- A cut at a delimiter is a cut of what stands before it and of what follows. -/
theorem pieces_delimiter {d : Char} (hd : isDelimiter d = true) (s t : Text) :
    pieces (s ++ d :: t) = pieces s ++ [d] :: pieces t := by
  induction s with
  | nil => simp [pieces, hd]
  | cons c rest ih =>
    rw [List.cons_append, pieces, pieces, ih]
    split
    · rfl
    · cases hp : pieces rest with
      | nil => simp [joinFront, hd]
      | cons p ps =>
        cases p with
        | nil => exact absurd rfl (ne_nil_of_mem_pieces (hp ▸ List.mem_cons_self ..))
        | cons e p => simp only [List.cons_append, joinFront]; split <;> rfl

theorem pieces_cons_delimiter {d : Char} (hd : isDelimiter d = true) (t : Text) :
    pieces (d :: t) = [d] :: pieces t := by
  rw [pieces, if_pos hd]

/-- A stretch without delimiters is one piece. -/
theorem pieces_of_not_isDelimiter {t : Text} (hne : t ≠ [])
    (h : ∀ c ∈ t, isDelimiter c = false) : pieces t = [t] := by
  induction t with
  | nil => exact absurd rfl hne
  | cons c rest ih =>
    obtain ⟨hc, hrest⟩ := List.forall_mem_cons.1 h
    rw [pieces, if_neg (by rw [hc]; decide)]
    cases rest with
    | nil => rfl
    | cons d rest =>
      have hd : isDelimiter d = false := hrest d (List.mem_cons_self ..)
      rw [ih (List.cons_ne_nil d rest) hrest, joinFront, if_neg (by rw [hd]; decide)]

/-! ## Balance -/

@[simp] theorem isBalancedFrom_nil (opened : Nat) :
    isBalancedFrom opened [] = (opened == 0) := rfl

theorem isBalancedFrom_open (opened : Nat) (t : Text) :
    isBalancedFrom opened ('(' :: t) = isBalancedFrom (opened + 1) t := rfl

theorem isBalancedFrom_close (opened : Nat) (t : Text) :
    isBalancedFrom (opened + 1) (')' :: t) = isBalancedFrom opened t := rfl

theorem isBalancedFrom_cons {c : Char} (hopen : c ≠ '(') (hclose : c ≠ ')') (opened : Nat)
    (t : Text) : isBalancedFrom opened (c :: t) = isBalancedFrom opened t := by
  rw [isBalancedFrom.eq_def]
  simp only [if_neg hopen, if_neg hclose]

/-- A stretch without delimiters does not matter. -/
theorem isBalancedFrom_append {s : Text} (h : ∀ c ∈ s, isDelimiter c = false) (opened : Nat)
    (t : Text) : isBalancedFrom opened (s ++ t) = isBalancedFrom opened t := by
  induction s with
  | nil => rfl
  | cons c s ih =>
    obtain ⟨hc, hs⟩ := List.forall_mem_cons.1 h
    have hopen : c ≠ '(' := ne_of_isDelimiter hc (by decide)
    have hclose : c ≠ ')' := ne_of_isDelimiter hc (by decide)
    rw [List.cons_append, isBalancedFrom_cons hopen hclose, ih hs]

end Formula
