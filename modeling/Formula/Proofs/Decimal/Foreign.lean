/-
  Formula.Proofs.Decimal.Foreign

  Numerals that are recognised and cannot be converted.

  A numeral is recognised without regard to case, and case folding identifies two foreign
  letters with `i`. Conversion does not know them. They can stand in a word for infinity
  only: `nan` has no such letter, and a decimal has no letter but the one of its exponent.

    * `Numeral.IsForeignInfinity t` — `t` is a word for infinity with a foreign letter in it.
    * `Numeral.isForeignInfinity_iff` — these are the numerals without sign that have a
      foreign letter.
    * `readLoosely?_of_ofText?` — a numeral is converted unless it has such a letter; that
      margins are trimmed and underscores dropped before does not matter to it.
-/
import Formula.Proofs.Decimal.Characters

namespace Formula

namespace Numeral

/-- The words that write an infinity. -/
def infinityWords : List Text :=
  [['i', 'n', 'f'], ['i', 'n', 'f', 'i', 'n', 'i', 't', 'y']]

/-- A word for infinity with a foreign letter in it. -/
def IsForeignInfinity (t : Text) : Prop :=
  t.map foldCase ∈ infinityWords ∧ t.any isForeignI = true

instance : DecidablePred IsForeignInfinity :=
  fun t => inferInstanceAs (Decidable (t.map foldCase ∈ infinityWords ∧ t.any isForeignI = true))

variable {t : Text} {n : Numeral} {c : Char}

theorem eq_of_isForeignI (h : isForeignI c = true) : c = 'ı' ∨ c = 'İ' := by
  simpa [isForeignI] using h

theorem IsFigure.not_isForeignI (h : IsFigure c) : isForeignI c = false := by
  rw [Bool.eq_false_iff]
  intro hforeign
  unfold IsFigure at h
  rcases eq_of_isForeignI hforeign with rfl | rfl
  · exact absurd h (by decide)
  · exact absurd h (by decide)

theorem ofWord?_of_infinityWords (h : t.map foldCase ∈ infinityWords) (negative : Bool) :
    ofWord? negative t = some (infinity negative) := by
  have hwords : t.map foldCase = ['i', 'n', 'f'] ∨
      t.map foldCase = ['i', 'n', 'f', 'i', 'n', 'i', 't', 'y'] := by
    simpa [infinityWords] using h
  rw [ofWord?]
  exact if_pos hwords

/-- A word with a foreign letter in it writes an infinity. -/
theorem map_foldCase_of_ofWord? {negative : Bool} (h : ofWord? negative t = some n)
    (hforeign : t.any isForeignI = true) : t.map foldCase ∈ infinityWords := by
  unfold ofWord? at h
  simp only at h
  split at h
  · rename_i hwords
    simpa [infinityWords] using hwords
  · split at h
    · rename_i hnan
      -- The foreign letter would be one of `nan`.
      obtain ⟨c, hc, hi⟩ := List.any_eq_true.1 hforeign
      have hfold : foldCase c ∈ t.map foldCase := List.mem_map_of_mem hc
      rw [hnan, foldCase, if_pos hi] at hfold
      exact absurd hfold (by decide)
    · cases h

/-- The numerals without sign that have a foreign letter are the words for infinity with
    one. -/
theorem isForeignInfinity_iff (negative : Bool) :
    IsForeignInfinity t ↔
      (ofUnsigned? negative t).isSome = true ∧ t.any isForeignI = true := by
  constructor
  · rintro ⟨hword, hforeign⟩
    rw [ofUnsigned?, ofWord?_of_infinityWords hword, Option.some_or]
    exact ⟨rfl, hforeign⟩
  · rintro ⟨hsome, hforeign⟩
    refine ⟨?_, hforeign⟩
    cases hword : ofWord? negative t with
    | some n => exact map_foldCase_of_ofWord? hword hforeign
    | none =>
      rw [ofUnsigned?, hword, Option.none_or] at hsome
      obtain ⟨n, hn⟩ := Option.isSome_iff_exists.1 hsome
      obtain ⟨c, hc, hi⟩ := List.any_eq_true.1 hforeign
      rw [(isFigure_of_ofDecimal? hn c hc).not_isForeignI] at hi
      cases hi

end Numeral

/-! ## Conversion -/

variable {t : Text} {n : Numeral}

/-- A text that has none of the characters at its ends is left alone. -/
theorem trimmed_eq_self {p : Char → Bool} (h : ∀ c ∈ t, p c = false) : trimmed p t = t := by
  have hdrop : ∀ u : Text, (∀ c ∈ u, p c = false) → u.dropWhile p = u := by
    intro u hu
    cases u with
    | nil => rfl
    | cons c u =>
      have hc : p c = false := hu c (List.mem_cons_self ..)
      rw [List.dropWhile_cons_of_neg (by simp [hc])]
  have hreverse : ∀ c ∈ t.reverse, p c = false := fun c hc => h c (List.mem_reverse.1 hc)
  rw [trimmed, hdrop t h, hdrop t.reverse hreverse, List.reverse_reverse]

theorem withoutUnderscores?_eq_self (h : '_' ∉ t) (afterDigit : Bool) :
    withoutUnderscores? afterDigit t = some t := by
  induction t generalizing afterDigit with
  | nil => rfl
  | cons c t ih =>
    have hc : c ≠ '_' := by
      rintro rfl
      exact h (List.mem_cons_self ..)
    have ht : '_' ∉ t := fun hmem => h (List.mem_cons_of_mem c hmem)
    rw [withoutUnderscores?, if_neg hc, ih ht]
    rfl

/-- A numeral is converted unless it has a foreign letter. -/
theorem readLoosely?_of_ofText? (h : Numeral.ofText? t = some n) :
    readLoosely? t = if t.any Numeral.isForeignI then none else some n.toFloat := by
  have hmarks := Numeral.isMark_of_ofText? h
  have hmargin : ∀ c ∈ t, isMargin c = false := by
    intro c hc
    rw [isMargin, (hmarks c hc).not_isBlank]
    rfl
  have hunderscore : '_' ∉ t := by
    intro hmem
    have hmark := hmarks '_' hmem
    unfold Numeral.IsMark Numeral.IsFigure at hmark
    exact absurd hmark (by decide)
  rw [readLoosely?, trimmed_eq_self hmargin, withoutUnderscores?_eq_self hunderscore,
    Option.bind_some, h]

theorem readLoosely?_eq_none_iff (h : (Numeral.ofText? t).isSome = true) :
    readLoosely? t = none ↔ t.any Numeral.isForeignI = true := by
  obtain ⟨n, hn⟩ := Option.isSome_iff_exists.1 h
  rw [readLoosely?_of_ofText? hn]
  cases t.any Numeral.isForeignI with
  | true => exact ⟨fun _ => rfl, fun _ => rfl⟩
  | false => exact ⟨nofun, nofun⟩

theorem any_isForeignI_withMinus (t : Text) :
    (withMinus t).any Numeral.isForeignI = t.any Numeral.isForeignI := by
  unfold withMinus
  split
  · rfl
  · rfl

/-- A piece cannot be read exactly if it is recognised as a numeral and not converted. -/
theorem readNumber_eq_error_iff {fault : Fault} :
    readNumber t = .error fault ↔
      ((Numeral.ofText? (withMinus t)).isSome = true ∧ readLoosely? (withMinus t) = none) ∧
        fault = .unreadable (withMinus t) := by
  rw [readNumber]
  cases hn : Numeral.ofText? (withMinus t) with
  | none =>
    constructor
    · nofun
    · rintro ⟨⟨hsome, -⟩, -⟩
      cases hsome
  | some n =>
    have hsome : (Numeral.ofText? (withMinus t)).isSome = true := by
      rw [hn]
      rfl
    rw [readLoosely?_eq_none_iff hsome, any_isForeignI_withMinus]
    cases t.any Numeral.isForeignI with
    | true =>
      constructor
      · intro h
        exact ⟨⟨rfl, rfl⟩, (Except.error.inj h).symm⟩
      · rintro ⟨-, rfl⟩
        rfl
    | false =>
      constructor
      · nofun
      · rintro ⟨⟨-, hforeign⟩, -⟩
        cases hforeign

end Formula
