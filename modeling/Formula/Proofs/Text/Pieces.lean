/-
  Formula.Proofs.Text.Pieces

  Cutting a text around its delimiters and writing pieces one after the other undo each
  other.

    * `IsStretch p` — `p` is a text without delimiters that is not empty.
    * `IsNormal ps` — every member of `ps` is one delimiter or a stretch, and no two
      stretches are neighbours.

  The pieces of a text are normal and are its only normal decomposition (`pieces_eq_iff`).
  Without the condition on neighbours there would be others: a stretch can be cut
  anywhere.
-/
import Mathlib.Data.List.Chain
import Formula.Text.Pieces

namespace Formula

/-- A text without delimiters that is not empty. -/
def IsStretch (p : Text) : Prop :=
  p ≠ [] ∧ ∀ c ∈ p, isDelimiter c = false

/-- Lists of delimiters and stretches in which no two stretches are neighbours. -/
structure IsNormal (ps : List Text) : Prop where
  piece : ∀ p ∈ ps, (∃ d, isDelimiter d = true ∧ p = [d]) ∨ IsStretch p
  apart : ps.IsChain fun p q => ¬ (IsStretch p ∧ IsStretch q)

variable {t p q : Text} {ps : List Text} {c d : Char}

/-- A text that begins with a delimiter is no stretch. -/
theorem not_isStretch_cons (hd : isDelimiter d = true) (p : Text) : ¬ IsStretch (d :: p) := by
  rintro ⟨-, hnone⟩
  have hplain : isDelimiter d = false := hnone d (List.mem_cons_self ..)
  rw [hd] at hplain
  cases hplain

/-! ## The pieces of a text are normal -/

/-- A character in front of pieces makes no two stretches neighbours: it joins the first
    piece where that is a stretch. -/
theorem isChain_joinFront (c : Char)
    (h : ps.IsChain fun p q => ¬ (IsStretch p ∧ IsStretch q)) (hne : [] ∉ ps) :
    (joinFront c ps).IsChain fun p q => ¬ (IsStretch p ∧ IsStretch q) := by
  match ps with
  | [] => exact List.isChain_singleton _
  | [] :: ps => exact absurd (List.mem_cons_self ..) hne
  | (d :: p) :: ps =>
    by_cases hd : isDelimiter d = true
    · rw [joinFront_of_delimiter hd]
      exact List.isChain_cons_cons.2 ⟨fun hboth => not_isStretch_cons hd p hboth.2, h⟩
    · rw [joinFront, if_neg hd]
      obtain ⟨hhead, htail⟩ := List.isChain_cons.1 h
      refine List.isChain_cons.2 ⟨fun q hq hboth => ?_, htail⟩
      -- What was a stretch with `c` in front was one without it.
      obtain ⟨⟨-, hnone⟩, hstretch⟩ := hboth
      have hrest : IsStretch (d :: p) :=
        ⟨List.cons_ne_nil d p, fun e he => hnone e (List.mem_cons_of_mem c he)⟩
      exact hhead q hq ⟨hrest, hstretch⟩

theorem isNormal_pieces (t : Text) : IsNormal (pieces t) := by
  refine ⟨fun p hp => ?_, ?_⟩
  · exact (delimiter_of_mem_pieces hp).imp_right fun hnone => ⟨ne_nil_of_mem_pieces hp, hnone⟩
  · induction t with
    | nil => exact List.isChain_nil
    | cons c rest ih =>
      rw [pieces]
      split
      · rename_i hc
        exact List.isChain_cons.2 ⟨fun q _ hboth => not_isStretch_cons hc [] hboth.1, ih⟩
      · exact isChain_joinFront c ih fun hmem => ne_nil_of_mem_pieces hmem rfl

/-! ## Normal lists are pieces -/

theorem IsNormal.tail (h : IsNormal (p :: ps)) : IsNormal ps :=
  ⟨fun q hq => h.piece q (List.mem_cons_of_mem p hq), h.apart.tail⟩

/-- What follows a stretch in a normal list is a delimiter. -/
theorem IsNormal.delimiter_of_isStretch (h : IsNormal (p :: q :: ps)) (hp : IsStretch p) :
    ∃ d, isDelimiter d = true ∧ q = [d] := by
  obtain ⟨hapart, -⟩ := List.isChain_cons_cons.1 h.apart
  have hq : q ∈ p :: q :: ps := List.mem_cons_of_mem p (List.mem_cons_self ..)
  exact (h.piece q hq).resolve_right fun hstretch => hapart ⟨hp, hstretch⟩

/-- A normal list is found again in the text that it writes. -/
theorem pieces_flatten (h : IsNormal ps) : pieces ps.flatten = ps := by
  induction ps with
  | nil => rfl
  | cons p ps ih =>
    have hrest : pieces ps.flatten = ps := ih h.tail
    rw [List.flatten_cons]
    rcases h.piece p (List.mem_cons_self ..) with ⟨d, hd, rfl⟩ | hstretch
    · rw [List.singleton_append, pieces_cons_delimiter hd, hrest]
    · have hself : pieces p = [p] := pieces_of_not_isDelimiter hstretch.1 hstretch.2
      match ps with
      | [] => rw [List.flatten_nil, List.append_nil, hself]
      | q :: ps =>
        -- The text is cut at the delimiter that follows the stretch.
        obtain ⟨d, hd, rfl⟩ := h.delimiter_of_isStretch hstretch
        rw [List.flatten_cons, List.singleton_append] at hrest ⊢
        rw [pieces_delimiter hd, hself, ← pieces_cons_delimiter hd, hrest, List.singleton_append]

/-- The pieces of a text are its only normal decomposition. -/
theorem pieces_eq_iff : pieces t = ps ↔ IsNormal ps ∧ ps.flatten = t := by
  refine ⟨?_, ?_⟩
  · rintro rfl
    exact ⟨isNormal_pieces t, flatten_pieces t⟩
  · rintro ⟨hnormal, rfl⟩
    exact pieces_flatten hnormal

/-- Cutting is the inverse of writing one after the other on normal lists: the pieces of a
    text are normal and write the text, a normal list is the pieces of the text that it
    writes, and so every text has one normal decomposition, which is cut at a delimiter as
    the text is. -/
theorem pieces_inverse_flatten :
    (∀ t, IsNormal (pieces t) ∧ (pieces t).flatten = t) ∧
      (∀ ps, IsNormal ps → pieces ps.flatten = ps) ∧
      (∀ t, ∃! ps, IsNormal ps ∧ ps.flatten = t) ∧
      ∀ (s t : Text) (d : Char), d ∈ delimiters →
        pieces (s ++ [d] ++ t) = pieces s ++ [[d]] ++ pieces t := by
  refine ⟨fun t => pieces_eq_iff.1 rfl, fun ps => pieces_flatten, fun t => ?_, ?_⟩
  · exact ⟨pieces t, pieces_eq_iff.1 rfl, fun ps hps => (pieces_eq_iff.2 hps).symm⟩
  · intro s t d hd
    have hdelimiter : isDelimiter d = true := List.contains_iff_mem.2 hd
    rw [List.append_assoc, List.singleton_append, pieces_delimiter hdelimiter, List.append_assoc,
      List.singleton_append]

/-- Two signs in a row and a parenthesis at the end are pieces of their own. -/
theorem pieces_inverse_flatten_signs :
    IsNormal [['a', 'b'], ['*'], ['~'], ['c'], [')']] ∧
      pieces "ab*~c)".toList = [['a', 'b'], ['*'], ['~'], ['c'], [')']] := by
  have hnormal : IsNormal [['a', 'b'], ['*'], ['~'], ['c'], [')']] := by
    refine ⟨?_, ?_⟩
    · simp [IsStretch, isDelimiter, delimiters]
    · simp [IsStretch, isDelimiter, delimiters]
  exact ⟨hnormal, pieces_inverse_flatten.2.1 _ hnormal⟩

end Formula
