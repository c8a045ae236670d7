/-
  Formula.Proofs.Decimal.Reading

  A piece of a formula is read as a number exactly if it is a numeral.

  A leading tilde counts as a minus sign. A numeral that is one only through a foreign letter
  is a failure, and every other one gives the float that it denotes. The script of the digits
  does not matter to any of this, and a tilde in front of a text gives the opposite float,
  unless it would be a second sign.

    * `asciiDigit c` — the figure that writes the digit `c`.
    * `readNumber_map_asciiDigit` — a text is read like the same text in these figures.
    * `readNumber_tilde_cons` — what a tilde in front does to what is read.
    * `readNumber_recognises_numerals` — what is read, for every text.
-/
import Formula.Proofs.Decimal.Grammar

namespace Formula

/-- The figure that writes the same digit as a character. What is no digit stays. -/
def asciiDigit (c : Char) : Char :=
  match decimalDigit? c with
  | some d => Nat.digitChar d
  | none => c

variable {t : Text} {c m : Char}

/-! ## Figures for digits -/

theorem decimalDigit?_asciiDigit (c : Char) : decimalDigit? (asciiDigit c) = decimalDigit? c := by
  rw [asciiDigit]
  cases hc : decimalDigit? c with
  | none => exact hc
  | some d => exact decimalDigit?_digitChar (decimalDigit?_lt_ten hc)

theorem asciiDigit_of_not_digit (h : decimalDigit? c = none) : asciiDigit c = c := by
  rw [asciiDigit, h]

/-- What is no digit comes of itself only. -/
theorem asciiDigit_eq_iff (hm : decimalDigit? m = none) : asciiDigit c = m ↔ c = m := by
  refine ⟨?_, ?_⟩
  · rintro rfl
    rw [decimalDigit?_asciiDigit] at hm
    exact (asciiDigit_of_not_digit hm).symm
  · rintro rfl
    exact asciiDigit_of_not_digit hm

namespace Numeral

/-- A character that does not stay can occur in a decimal, and so can its figure. -/
theorem asciiDigit_cases (c : Char) :
    asciiDigit c = c ∨ IsFigure c ∧ IsFigure (asciiDigit c) := by
  cases hc : decimalDigit? c with
  | none => exact .inl (asciiDigit_of_not_digit hc)
  | some d =>
    have hdigit : (decimalDigit? c).isSome = true := by
      rw [hc]
      rfl
    exact .inr ⟨.inl hdigit, .inl (by rwa [decimalDigit?_asciiDigit])⟩

/-! ## Readers -/

theorem digitRun_map (t : Text) :
    digitRun (t.map asciiDigit) = ((digitRun t).1, (digitRun t).2.map asciiDigit) := by
  induction t with
  | nil => rfl
  | cons c t ih =>
    rw [List.map_cons, digitRun, digitRun, decimalDigit?_asciiDigit]
    cases decimalDigit? c with
    | none => rfl
    | some d => rw [ih]

theorem allDigits?_map (t : Text) : allDigits? (t.map asciiDigit) = allDigits? t := by
  unfold allDigits?
  rw [digitRun_map]
  rcases digitRun t with ⟨_ | ⟨d, ds⟩, _ | ⟨c, u⟩⟩
  · rfl
  · rfl
  · rfl
  · rfl

theorem fractionRun_of_ne (hc : c ≠ '.') (t : Text) : fractionRun (c :: t) = ([], c :: t) := by
  rw [fractionRun]
  rintro _ h
  exact hc (List.cons.inj h).1

theorem fractionRun_map (t : Text) :
    fractionRun (t.map asciiDigit) =
      ((fractionRun t).1, (fractionRun t).2.map asciiDigit) := by
  cases t with
  | nil => rfl
  | cons c t =>
    by_cases hc : c = '.'
    · subst hc
      exact digitRun_map t
    · have hc' : asciiDigit c ≠ '.' := fun h => hc ((asciiDigit_eq_iff rfl).1 h)
      rw [List.map_cons, fractionRun_of_ne hc', fractionRun_of_ne hc]
      rfl

theorem startsWithSign_of_ne (hminus : c ≠ '-') (hplus : c ≠ '+') (t : Text) :
    startsWithSign (c :: t) = false := by
  rw [startsWithSign]
  · rintro _ h
    exact hminus (List.cons.inj h).1
  · rintro _ h
    exact hplus (List.cons.inj h).1

theorem startsWithSign_map (t : Text) : startsWithSign (t.map asciiDigit) = startsWithSign t := by
  cases t with
  | nil => rfl
  | cons c t =>
    by_cases hminus : c = '-'
    · subst hminus
      rfl
    by_cases hplus : c = '+'
    · subst hplus
      rfl
    have hminus' : asciiDigit c ≠ '-' := fun h => hminus ((asciiDigit_eq_iff rfl).1 h)
    have hplus' : asciiDigit c ≠ '+' := fun h => hplus ((asciiDigit_eq_iff rfl).1 h)
    rw [List.map_cons, startsWithSign_of_ne hminus' hplus', startsWithSign_of_ne hminus hplus]

theorem exponent?_map (t : Text) : exponent? (t.map asciiDigit) = exponent? t := by
  cases t with
  | nil => rfl
  | cons c t =>
    by_cases hletter : c = 'e' ∨ c = 'E'
    · have hc : asciiDigit c = c := by
        rcases hletter with rfl | rfl
        · rfl
        · rfl
      rw [List.map_cons, hc]
      cases hsign : startsWithSign t with
      | false =>
        have hsign' : startsWithSign (t.map asciiDigit) = false := by rw [startsWithSign_map, hsign]
        rw [exponent?_of_not_startsWithSign hletter hsign',
          exponent?_of_not_startsWithSign hletter hsign, allDigits?_map]
      | true =>
        obtain ⟨u, rfl | rfl⟩ := exists_of_startsWithSign hsign
        · show exponent? (c :: '-' :: u.map asciiDigit) = _
          rw [exponent?, if_pos hletter, exponent?, if_pos hletter, allDigits?_map]
        · show exponent? (c :: '+' :: u.map asciiDigit) = _
          rw [exponent?, if_pos hletter, exponent?, if_pos hletter, allDigits?_map]
    · have hletter' : ¬ (asciiDigit c = 'e' ∨ asciiDigit c = 'E') := by
        rwa [asciiDigit_eq_iff rfl, asciiDigit_eq_iff rfl]
      simp only [List.map_cons, exponent?, if_neg hletter, if_neg hletter']

theorem ofDecimal?_map (negative : Bool) (t : Text) :
    ofDecimal? negative (t.map asciiDigit) = ofDecimal? negative t := by
  simp only [ofDecimal?, digitRun_map, fractionRun_map, exponent?_map]

/-- A letter of a word is no digit. -/
theorem asciiDigit_of_foldCase_mem
    (h : foldCase c ∈ wordLetters ∨ foldCase (asciiDigit c) ∈ wordLetters) :
    asciiDigit c = c := by
  rcases asciiDigit_cases c with hself | ⟨hfigure, hfigure'⟩
  · exact hself
  · rcases h with h | h
    · exact absurd h hfigure.foldCase_not_mem
    · exact absurd h hfigure'.foldCase_not_mem

theorem map_asciiDigit_of_foldCase_mem
    (h : ∀ c ∈ t, foldCase c ∈ wordLetters ∨ foldCase (asciiDigit c) ∈ wordLetters) :
    t.map asciiDigit = t :=
  (List.map_congr_left fun c hc => asciiDigit_of_foldCase_mem (h c hc)).trans (List.map_id t)

theorem ofWord?_map (negative : Bool) (t : Text) :
    ofWord? negative (t.map asciiDigit) = ofWord? negative t := by
  -- If either of the two texts is a word, it has no digits, and they are the same.
  refine Option.ext fun n => ⟨fun h => ?_, fun h => ?_⟩
  · have hletters := foldCase_mem_of_ofWord? h
    rwa [map_asciiDigit_of_foldCase_mem fun c hc => .inr (hletters _ (List.mem_map_of_mem hc))] at h
  · have hletters := foldCase_mem_of_ofWord? h
    rwa [map_asciiDigit_of_foldCase_mem fun c hc => .inl (hletters c hc)]

theorem ofUnsigned?_map (negative : Bool) (t : Text) :
    ofUnsigned? negative (t.map asciiDigit) = ofUnsigned? negative t := by
  rw [ofUnsigned?, ofUnsigned?, ofWord?_map, ofDecimal?_map]

theorem ofText?_map (t : Text) : ofText? (t.map asciiDigit) = ofText? t := by
  cases hsign : startsWithSign t with
  | false =>
    have hsign' : startsWithSign (t.map asciiDigit) = false := by rw [startsWithSign_map, hsign]
    rw [ofText?_of_not_startsWithSign hsign', ofText?_of_not_startsWithSign hsign,
      ofUnsigned?_map]
  | true =>
    obtain ⟨u, rfl | rfl⟩ := exists_of_startsWithSign hsign
    · exact ofUnsigned?_map true u
    · exact ofUnsigned?_map false u

/-! ## Opposite numerals -/

theorem ofWord?_true (t : Text) : ofWord? true t = (ofWord? false t).map opposite := by
  simp only [ofWord?]
  split
  · rfl
  · split
    · rfl
    · rfl

theorem ofDecimal?_true (t : Text) : ofDecimal? true t = (ofDecimal? false t).map opposite := by
  simp only [ofDecimal?]
  split
  · rfl
  · rw [Option.map_map]
    rfl

theorem ofUnsigned?_true (t : Text) :
    ofUnsigned? true t = (ofUnsigned? false t).map opposite := by
  rw [ofUnsigned?, ofUnsigned?, ofWord?_true, ofDecimal?_true]
  cases ofWord? false t with
  | none => rfl
  | some n => rfl

theorem negative_of_ofUnsigned? {negative : Bool} {n : Numeral}
    (h : ofUnsigned? negative t = some n) : n.negative = negative := by
  cases ofUnsigned?_eq_some_iff.1 h with
  | decimal _ _ => rfl
  | infinity _ => rfl
  | nan _ => rfl

/-- The sign is applied to the nearest float, so opposite numerals have opposite floats. -/
theorem toFloat_opposite {n : Numeral} (h : n.negative = false) :
    n.opposite.toFloat = -n.toFloat := by
  cases n with
  | decimal s _ _ =>
    obtain rfl : s = false := h
    rfl
  | infinity s =>
    obtain rfl : s = false := h
    rfl
  | nan s =>
    obtain rfl : s = false := h
    rfl

end Numeral

open Numeral (Spells isForeignI startsWithSign)

variable {n : Numeral} {fault : Fault} {x : Float}

/-! ## Numerals and other texts -/

theorem readNumber_of_ofText? (h : Numeral.ofText? (withMinus t) = some n) :
    readNumber t =
      if t.any isForeignI then .error (.unreadable (withMinus t)) else .ok (some n.toFloat) := by
  rw [readNumber, h]

theorem readNumber_of_ofText?_none (h : Numeral.ofText? (withMinus t) = none) :
    readNumber t = .ok none := by
  rw [readNumber, h]

/-! ## Pieces in figures -/

theorem isForeignI_asciiDigit (c : Char) : isForeignI (asciiDigit c) = isForeignI c := by
  rcases Numeral.asciiDigit_cases c with hself | ⟨hfigure, hfigure'⟩
  · rw [hself]
  · rw [hfigure.not_isForeignI, hfigure'.not_isForeignI]

theorem any_isForeignI_map (t : Text) : (t.map asciiDigit).any isForeignI = t.any isForeignI := by
  rw [List.any_map]
  exact congrArg t.any (funext isForeignI_asciiDigit)

theorem withMinus_of_ne (hc : c ≠ '~') (t : Text) : withMinus (c :: t) = c :: t := by
  rw [withMinus]
  rintro _ h
  exact hc (List.cons.inj h).1

theorem withMinus_map (t : Text) : withMinus (t.map asciiDigit) = (withMinus t).map asciiDigit := by
  cases t with
  | nil => rfl
  | cons c t =>
    by_cases hc : c = '~'
    · subst hc
      rfl
    · have hc' : asciiDigit c ≠ '~' := fun h => hc ((asciiDigit_eq_iff rfl).1 h)
      rw [List.map_cons, withMinus_of_ne hc', withMinus_of_ne hc, List.map_cons]

/-- A numeral with a foreign letter has no digits. -/
theorem map_asciiDigit_of_isForeignI (h : Numeral.ofText? t = some n)
    (hforeign : t.any isForeignI = true) : t.map asciiDigit = t := by
  cases Numeral.ofText?_eq_some_iff.1 h with
  | @signed s t negative _ hs ht =>
    have hsign : s.map asciiDigit = s := by
      cases hs with
      | none => rfl
      | plus => rfl
      | minus => rfl
    rw [List.any_append, hs.any_isForeignI, Bool.false_or] at hforeign
    have hsome : (Numeral.ofUnsigned? negative t).isSome = true := by
      rw [Numeral.ofUnsigned?_eq_some_iff.2 ht]
      rfl
    -- It is a word for infinity.
    obtain ⟨hword, -⟩ := (Numeral.isForeignInfinity_iff negative).2 ⟨hsome, hforeign⟩
    have hletters :=
      Numeral.foldCase_mem_of_ofWord? (Numeral.ofWord?_of_infinityWords hword negative)
    rw [List.map_append, hsign,
      Numeral.map_asciiDigit_of_foldCase_mem fun c hc => .inl (hletters c hc)]

/-- The script of the digits does not matter to what is read. -/
theorem readNumber_map_asciiDigit (t : Text) : readNumber (t.map asciiDigit) = readNumber t := by
  rw [readNumber, readNumber, withMinus_map, Numeral.ofText?_map, any_isForeignI_map]
  cases hn : Numeral.ofText? (withMinus t) with
  | none => rfl
  | some n =>
    cases hforeign : t.any isForeignI with
    | false => rfl
    | true =>
      -- The failure carries the text.
      have hforeign' : (withMinus t).any isForeignI = true := by
        rw [any_isForeignI_withMinus, hforeign]
      rw [map_asciiDigit_of_isForeignI hn hforeign']

/-! ## Tildes -/

/-- A tilde in front of a text that begins with a sign, or with another tilde, is no sign. -/
theorem readNumber_tilde_of_startsWithSign (h : startsWithSign (withMinus t) = true) :
    readNumber ('~' :: t) = .ok none := by
  have hnone : Numeral.ofUnsigned? true t = none := by
    unfold withMinus at h
    split at h
    · rfl
    · exact Numeral.ofUnsigned?_of_startsWithSign h
  exact readNumber_of_ofText?_none hnone

/-- A tilde in front of another text gives the opposite of what is read without it. -/
theorem readNumber_tilde_cons (h : startsWithSign (withMinus t) = false) :
    readNumber ('~' :: t) =
      match readNumber t with
      | .ok x => .ok (x.map fun x => -x)
      | .error _ => .error (.unreadable ('-' :: t)) := by
  have hself : withMinus t = t := by
    unfold withMinus at h ⊢
    split at h
    · cases h
    · rfl
  rw [hself] at h
  -- The sign is the only one, so what follows it is read alike with it and without.
  have hopposite : Numeral.ofText? (withMinus ('~' :: t)) =
      (Numeral.ofText? (withMinus t)).map Numeral.opposite := by
    rw [hself, Numeral.ofText?_of_not_startsWithSign h]
    exact Numeral.ofUnsigned?_true t
  have hforeign : ('~' :: t).any isForeignI = t.any isForeignI := by
    rw [List.any_cons]
    rfl
  rw [readNumber, readNumber, hopposite, hforeign]
  cases hn : Numeral.ofText? (withMinus t) with
  | none => rfl
  | some n =>
    cases t.any isForeignI with
    | true => rfl
    | false =>
      rw [hself, Numeral.ofText?_of_not_startsWithSign h] at hn
      show Except.ok (some n.opposite.toFloat) = _
      rw [Numeral.toFloat_opposite (Numeral.negative_of_ofUnsigned? hn)]
      rfl

/-! ## What is read -/

theorem exists_spells_iff :
    (∃ n, Spells true t n) ↔ (Numeral.ofText? t).isSome = true := by
  rw [Option.isSome_iff_exists]
  exact exists_congr fun n => Numeral.ofText?_eq_some_iff.symm

theorem exists_spells_false_iff :
    (∃ n, Spells false t n) ↔ (∃ n, Spells true t n) ∧ t.any isForeignI = false := by
  rw [← exists_and_right]
  exact exists_congr fun n => Numeral.spells_false_iff

theorem readNumber_eq_none_iff : readNumber t = .ok none ↔ ¬ ∃ n, Spells true (withMinus t) n := by
  rw [exists_spells_iff, Bool.not_eq_true, Option.isSome_eq_false_iff, Option.isNone_iff_eq_none]
  refine ⟨fun hread => ?_, readNumber_of_ofText?_none⟩
  cases hn : Numeral.ofText? (withMinus t) with
  | none => rfl
  | some n =>
    rw [readNumber_of_ofText? hn] at hread
    split at hread
    · cases hread
    · cases hread

theorem readNumber_eq_some_iff :
    readNumber t = .ok (some x) ↔ ∃ n, Spells false (withMinus t) n ∧ x = n.toFloat := by
  refine ⟨fun hread => ?_, ?_⟩
  · cases hn : Numeral.ofText? (withMinus t) with
    | none =>
      rw [readNumber_of_ofText?_none hn] at hread
      cases hread
    | some n =>
      rw [readNumber_of_ofText? hn] at hread
      split at hread
      · cases hread
      · rename_i hforeign
        rw [← any_isForeignI_withMinus, Bool.not_eq_true] at hforeign
        have hspells := Numeral.spells_false_iff.2 ⟨Numeral.ofText?_eq_some_iff.1 hn, hforeign⟩
        exact ⟨n, hspells, (Option.some.inj (Except.ok.inj hread)).symm⟩
  · rintro ⟨n, hspells, rfl⟩
    obtain ⟨htrue, hforeign⟩ := Numeral.spells_false_iff.1 hspells
    rw [any_isForeignI_withMinus] at hforeign
    rw [readNumber_of_ofText? (Numeral.ofText?_eq_some_iff.2 htrue), hforeign]
    rfl

theorem readNumber_eq_error_iff_spells :
    readNumber t = .error fault ↔
      fault = .unreadable (withMinus t) ∧ (∃ n, Spells true (withMinus t) n) ∧
        ¬ ∃ n, Spells false (withMinus t) n := by
  rw [readNumber_eq_error_iff, exists_spells_false_iff, exists_spells_iff]
  refine ⟨?_, ?_⟩
  · rintro ⟨⟨hsome, hloosely⟩, rfl⟩
    have hforeign := (readLoosely?_eq_none_iff hsome).1 hloosely
    refine ⟨rfl, hsome, ?_⟩
    rintro ⟨-, hnone⟩
    rw [hforeign] at hnone
    cases hnone
  · rintro ⟨rfl, hsome, hnot⟩
    refine ⟨⟨hsome, (readLoosely?_eq_none_iff hsome).2 ?_⟩, rfl⟩
    rw [← Bool.not_eq_false]
    exact fun hnone => hnot ⟨hsome, hnone⟩

/-- **What is read as a number, for every text.** Nothing is read exactly from the texts that
    are no numerals, a leading tilde counting as a minus sign. A numeral is a failure exactly if
    it is one only through a foreign letter, and it gives the float that it denotes otherwise.
    The script of its digits does not matter, and a tilde in front of a text gives the opposite,
    or nothing if the text begins with a sign or a tilde. -/
theorem readNumber_recognises_numerals (t : Text) :
    (readNumber t = .ok none ↔ ¬ ∃ n, Spells true (withMinus t) n) ∧
      (∀ fault, readNumber t = .error fault ↔
        fault = .unreadable (withMinus t) ∧ (∃ n, Spells true (withMinus t) n) ∧
          ¬ ∃ n, Spells false (withMinus t) n) ∧
      (∀ x, readNumber t = .ok (some x) ↔ ∃ n, Spells false (withMinus t) n ∧ x = n.toFloat) ∧
      readNumber (t.map asciiDigit) = readNumber t ∧
      (startsWithSign (withMinus t) = false →
        readNumber ('~' :: t) =
          match readNumber t with
          | .ok x => .ok (x.map fun x => -x)
          | .error _ => .error (.unreadable ('-' :: t))) ∧
      (startsWithSign (withMinus t) = true → readNumber ('~' :: t) = .ok none) :=
  ⟨readNumber_eq_none_iff, fun _ => readNumber_eq_error_iff_spells, fun _ => readNumber_eq_some_iff,
    readNumber_map_asciiDigit t, readNumber_tilde_cons, readNumber_tilde_of_startsWithSign⟩

/-- Three and a half in another script, with one tilde in front and with two. -/
theorem readNumber_recognises_numerals_tilde :
    startsWithSign (withMinus ['٣', '.', '٥']) = false ∧
      readNumber ['~', '٣', '.', '٥'] = .ok (some (-(Numeral.decimal false 35 (-1)).toFloat)) ∧
      startsWithSign (withMinus ['~', '٣', '.', '٥']) = true ∧
      readNumber ['~', '~', '٣', '.', '٥'] = .ok none := by
  have hone : startsWithSign (withMinus ['٣', '.', '٥']) = false := rfl
  have htwo : startsWithSign (withMinus ['~', '٣', '.', '٥']) = true := rfl
  obtain ⟨-, -, -, -, hopposite, -⟩ := readNumber_recognises_numerals ['٣', '.', '٥']
  obtain ⟨-, -, -, -, -, hnothing⟩ := readNumber_recognises_numerals ['~', '٣', '.', '٥']
  exact ⟨hone, hopposite hone, htwo, hnothing htwo⟩

end Formula
