/-
  Formula.Proofs.Decimal.Grammar

  The grammar of numerals, as a relation between a text and what it denotes.

      numeral     ::= sign unsigned
      unsigned    ::= significand exponent | inf | infinity | nan
      significand ::= digits | digits . [digits] | . digits
      exponent    ::= empty | e sign digits | E sign digits
      sign        ::= empty | + | -

    * `Digits t ds` — the characters of `t` are the digits `ds`, in any script.
    * `Spells foreign t n` — `t` is a numeral that denotes `n`. The words are in any letter case,
      and if `foreign` is set then two foreign letters count as `i` in them.

  A reader that runs over the digits at the front, then over those behind a point, then over
  an exponent finds every derivation, because what follows a part never continues it: a
  significand is not followed by a digit or a point, and no unsigned numeral begins with a
  sign. `ofText?_eq_some_iff` says that the reader and the grammar agree, and
  `spells_false_iff` what the foreign letters add to the grammar.
-/
import Formula.Proofs.Decimal.Foreign

namespace Formula

namespace Numeral

/-! ## The grammar -/

/-- The characters of a text are decimal digits of the given values. -/
inductive Digits : Text → List Nat → Prop
  | nil : Digits [] []
  | cons {c : Char} {d : Nat} {t : Text} {ds : List Nat} (hc : decimalDigit? c = some d)
      (ht : Digits t ds) : Digits (c :: t) (d :: ds)

/-- An optional sign, and whether it is a minus sign. -/
inductive Sign : Text → Bool → Prop
  | none : Sign [] false
  | plus : Sign ['+'] false
  | minus : Sign ['-'] true

/-- A significand, with its digits before and behind the point. -/
inductive Significand : Text → List Nat → List Nat → Prop
  | whole {s : Text} {ws : List Nat} (hs : Digits s ws) (hne : ws ≠ []) : Significand s ws []
  | point {s t : Text} {ws fs : List Nat} (hs : Digits s ws) (hne : ws ≠ []) (ht : Digits t fs) :
      Significand (s ++ '.' :: t) ws fs
  | fraction {t : Text} {fs : List Nat} (ht : Digits t fs) (hne : fs ≠ []) :
      Significand ('.' :: t) [] fs

/-- An optional exponent, with its value. -/
inductive Exponent : Text → Int → Prop
  | none : Exponent [] 0
  | letter {c : Char} {s t : Text} {negative : Bool} {ds : List Nat} (hc : c = 'e' ∨ c = 'E')
      (hs : Sign s negative) (ht : Digits t ds) (hne : ds ≠ []) :
      Exponent (c :: (s ++ t)) (if negative then -(digitsValue ds : Int) else digitsValue ds)

/-- A character in lower case. The two foreign letters count as `i` if `foreign` is set. -/
def letter (foreign : Bool) (c : Char) : Char :=
  if foreign && isForeignI c then 'i' else c.toLower

/-- A numeral without its sign, `negative` being the sign that it has. -/
inductive Unsigned (foreign negative : Bool) : Text → Numeral → Prop
  | decimal {s t : Text} {ws fs : List Nat} {e : Int} (hs : Significand s ws fs)
      (ht : Exponent t e) :
      Unsigned foreign negative (s ++ t)
        (.decimal negative (digitsValue (ws ++ fs)) (e - fs.length))
  | infinity {t : Text} (ht : t.map (letter foreign) ∈ infinityWords) :
      Unsigned foreign negative t (.infinity negative)
  | nan {t : Text} (ht : t.map (letter foreign) = ['n', 'a', 'n']) :
      Unsigned foreign negative t (.nan negative)

/-- A text is a numeral that denotes `n`. -/
inductive Spells (foreign : Bool) : Text → Numeral → Prop
  | signed {s t : Text} {negative : Bool} {n : Numeral} (hs : Sign s negative)
      (ht : Unsigned foreign negative t n) : Spells foreign (s ++ t) n

variable {s t u v : Text} {ds ws fs : List Nat} {c : Char} {d k : Nat} {e : Int} {n : Numeral}
  {foreign negative : Bool}

/-! ## Digits -/

/-- A run of digits ends where no digit follows. -/
theorem Digits.digitRun_append (h : Digits s ds) (ht : startsWithDigit t = false) :
    digitRun (s ++ t) = (ds, t) := by
  induction h with
  | nil =>
    cases t with
    | nil => rfl
    | cons c t =>
      have hc : decimalDigit? c = none := by simpa [startsWithDigit] using ht
      rw [List.nil_append, digitRun, hc]
  | cons hc _ ih => rw [List.cons_append, digitRun, hc, ih]

/-- A run of digits is a part of the text at its front. -/
theorem exists_digits_of_digitRun (h : digitRun t = (ds, u)) :
    ∃ s, s ++ u = t ∧ Digits s ds := by
  induction t generalizing ds with
  | nil =>
    obtain ⟨rfl, rfl⟩ := Prod.mk.inj h
    exact ⟨[], rfl, .nil⟩
  | cons c t ih =>
    rw [digitRun] at h
    cases hc : decimalDigit? c with
    | none =>
      rw [hc] at h
      obtain ⟨rfl, rfl⟩ := Prod.mk.inj h
      exact ⟨[], rfl, .nil⟩
    | some d =>
      rw [hc] at h
      obtain ⟨rfl, rfl⟩ := Prod.mk.inj h
      obtain ⟨s, ht, hs⟩ := ih rfl
      exact ⟨c :: s, congrArg (c :: ·) ht, .cons hc hs⟩

theorem allDigits?_eq_some_iff :
    allDigits? t = some k ↔ ∃ ds, Digits t ds ∧ ds ≠ [] ∧ digitsValue ds = k := by
  refine ⟨fun h => ?_, ?_⟩
  · unfold allDigits? at h
    split at h
    · rename_i d ds hrun
      obtain ⟨s, rfl, hs⟩ := exists_digits_of_digitRun hrun
      rw [List.append_nil]
      exact ⟨d :: ds, hs, List.cons_ne_nil d ds, Option.some.inj h⟩
    · cases h
  · rintro ⟨ds, hds, hne, rfl⟩
    have hrun : digitRun t = (ds, []) := by
      have := hds.digitRun_append (t := []) rfl
      rwa [List.append_nil] at this
    rw [allDigits?, hrun]
    cases ds with
    | nil => exact absurd rfl hne
    | cons d ds => rfl

/-! ## Signs -/

/-- Whether a text begins with a sign. -/
def startsWithSign : Text → Bool
  | '-' :: _ => true
  | '+' :: _ => true
  | _ => false

theorem exists_of_startsWithSign (h : startsWithSign t = true) :
    ∃ u, t = '-' :: u ∨ t = '+' :: u := by
  unfold startsWithSign at h
  split at h
  · exact ⟨_, .inl rfl⟩
  · exact ⟨_, .inr rfl⟩
  · cases h

/-- No digit is a sign. -/
theorem not_startsWithSign_of_allDigits? (h : allDigits? t = some k) :
    startsWithSign t = false := by
  unfold startsWithSign
  split
  · cases h
  · cases h
  · rfl

/-! ## Exponents -/

/-- What is read behind the sign of an exponent, `g` being what the sign does to it. -/
theorem exists_digits_of_map {g : Int → Int}
    (h : ((allDigits? t).bind fun k => some (k : Int)).map g = some e) :
    ∃ ds, Digits t ds ∧ ds ≠ [] ∧ e = g (digitsValue ds) := by
  obtain ⟨m, hm, rfl⟩ := Option.map_eq_some_iff.1 h
  obtain ⟨k, hk, hkm⟩ := Option.bind_eq_some_iff.1 hm
  obtain ⟨ds, hds, hne, rfl⟩ := allDigits?_eq_some_iff.1 hk
  exact ⟨ds, hds, hne, by rw [← Option.some.inj hkm]⟩

theorem exponent?_of_not_startsWithSign (hletter : c = 'e' ∨ c = 'E')
    (ht : startsWithSign t = false) :
    exponent? (c :: t) = (allDigits? t).map fun k => (k : Int) := by
  rw [exponent?, if_pos hletter]
  · rintro _ rfl
    cases ht
  · rintro _ rfl
    cases ht

theorem exponent?_letter (hletter : c = 'e' ∨ c = 'E') (hs : Sign s negative)
    (hall : allDigits? t = some k) :
    exponent? (c :: (s ++ t)) = some (if negative then -(k : Int) else k) := by
  cases hs with
  | minus =>
    show exponent? (c :: '-' :: t) = _
    rw [exponent?, if_pos hletter, hall]
    rfl
  | plus =>
    show exponent? (c :: '+' :: t) = _
    rw [exponent?, if_pos hletter, hall]
    rfl
  | none =>
    have ht := not_startsWithSign_of_allDigits? hall
    rw [List.nil_append, exponent?_of_not_startsWithSign hletter ht, hall]
    rfl

theorem exponent?_eq_some_iff : exponent? t = some e ↔ Exponent t e := by
  refine ⟨fun h => ?_, fun h => ?_⟩
  · unfold exponent? at h
    split at h
    · obtain rfl := Option.some.inj h
      exact .none
    · split at h
      · rename_i hletter
        split at h
        · obtain ⟨ds, hds, hne, rfl⟩ := exists_digits_of_map h
          exact .letter hletter .minus hds hne
        · obtain ⟨ds, hds, hne, rfl⟩ := exists_digits_of_map h
          exact .letter hletter .plus hds hne
        · obtain ⟨ds, hds, hne, rfl⟩ := exists_digits_of_map h
          exact .letter hletter .none hds hne
      · cases h
  · cases h with
    | none => rfl
    | letter hletter hs ht hne =>
      exact exponent?_letter hletter hs (allDigits?_eq_some_iff.2 ⟨_, ht, hne, rfl⟩)

/-- An exponent continues neither the digits nor the fraction before it. -/
theorem Exponent.not_continues (h : Exponent t e) :
    startsWithDigit t = false ∧ fractionRun t = ([], t) := by
  cases h with
  | none => exact ⟨rfl, rfl⟩
  | letter hletter _ _ _ =>
    rcases hletter with rfl | rfl
    · exact ⟨by rfl, rfl⟩
    · exact ⟨by rfl, rfl⟩

/-! ## Decimals -/

/-- A fraction is the digits behind a point. It is empty if there is no point. -/
theorem exists_digits_of_fractionRun (h : fractionRun t = (fs, u)) :
    (fs = [] ∧ t = u) ∨ ∃ s, '.' :: (s ++ u) = t ∧ Digits s fs := by
  unfold fractionRun at h
  split at h
  · obtain ⟨s, hs, hdigits⟩ := exists_digits_of_digitRun h
    exact .inr ⟨s, congrArg ('.' :: ·) hs, hdigits⟩
  · obtain ⟨rfl, rfl⟩ := Prod.mk.inj h
    exact .inl ⟨rfl, rfl⟩

/-- What a decimal denotes, its parts being those that are read one behind another. -/
theorem ofDecimal?_eq_some_iff (hwhole : digitRun t = (ws, u))
    (hfraction : fractionRun u = (fs, v)) :
    ofDecimal? negative t = some n ↔
      ws ++ fs ≠ [] ∧
        ∃ e, exponent? v = some e ∧
          decimal negative (digitsValue (ws ++ fs)) (e - fs.length) = n := by
  simp only [ofDecimal?, hwhole, hfraction]
  by_cases hne : ws ++ fs = []
  · rw [if_pos hne]
    exact ⟨nofun, fun h => absurd hne h.1⟩
  · rw [if_neg hne, Option.map_eq_some_iff]
    exact ⟨fun h => ⟨hne, h⟩, fun h => h.2⟩

/-- A decimal that is read is one of the grammar. -/
theorem unsigned_of_ofDecimal? (h : ofDecimal? negative t = some n) :
    Unsigned foreign negative t n := by
  rcases hwhole : digitRun t with ⟨ws, u⟩
  rcases hfraction : fractionRun u with ⟨fs, v⟩
  obtain ⟨hne, e, he, rfl⟩ := (ofDecimal?_eq_some_iff hwhole hfraction).1 h
  have hexponent := exponent?_eq_some_iff.1 he
  obtain ⟨s, rfl, hs⟩ := exists_digits_of_digitRun hwhole
  rcases exists_digits_of_fractionRun hfraction with ⟨rfl, rfl⟩ | ⟨s', rfl, hs'⟩
  · -- Without a point, the digits are those before it.
    rw [List.append_nil] at hne
    exact .decimal (.whole hs hne) hexponent
  · by_cases hws : ws = []
    · -- With none before the point there are some behind it.
      subst hws
      cases hs
      show Unsigned foreign negative (('.' :: s') ++ v) _
      exact .decimal (.fraction hs' hne) hexponent
    · show Unsigned foreign negative (s ++ (('.' :: s') ++ v)) _
      rw [← List.append_assoc]
      exact .decimal (.point hs hws hs') hexponent

/-- A decimal of the grammar is read. -/
theorem ofDecimal?_of_significand (negative : Bool) (hs : Significand s ws fs)
    (he : Exponent t e) :
    ofDecimal? negative (s ++ t) =
      some (decimal negative (digitsValue (ws ++ fs)) (e - fs.length)) := by
  obtain ⟨hdigit, hpoint⟩ := he.not_continues
  have hread := exponent?_eq_some_iff.2 he
  have hstop : ∀ u : Text, startsWithDigit ('.' :: (u ++ t)) = false := fun _ => rfl
  cases hs with
  | whole hs hne =>
    have hwhole := hs.digitRun_append hdigit
    refine (ofDecimal?_eq_some_iff hwhole hpoint).2 ⟨?_, e, hread, rfl⟩
    rwa [List.append_nil]
  | @point s u _ _ hs hne hu =>
    rw [List.append_assoc, List.cons_append]
    have hwhole := hs.digitRun_append (hstop u)
    refine (ofDecimal?_eq_some_iff hwhole (hu.digitRun_append hdigit)).2 ⟨?_, e, hread, rfl⟩
    exact fun h => hne (List.append_eq_nil_iff.1 h).1
  | @fraction u _ hu hne =>
    have hwhole := Digits.nil.digitRun_append (hstop u)
    exact (ofDecimal?_eq_some_iff hwhole (hu.digitRun_append hdigit)).2 ⟨hne, e, hread, rfl⟩

/-! ## Words -/

theorem ofWord?_eq_some_iff :
    ofWord? negative t = some n ↔
      (t.map foldCase ∈ infinityWords ∧ n = infinity negative) ∨
        (t.map foldCase = ['n', 'a', 'n'] ∧ n = nan negative) := by
  refine ⟨fun h => ?_, ?_⟩
  · unfold ofWord? at h
    simp only at h
    split at h
    · rename_i hwords
      exact .inl ⟨by simpa [infinityWords] using hwords, (Option.some.inj h).symm⟩
    · split at h
      · rename_i hnan
        exact .inr ⟨hnan, (Option.some.inj h).symm⟩
      · cases h
  · rintro (⟨hwords, rfl⟩ | ⟨hnan, rfl⟩)
    · exact ofWord?_of_infinityWords hwords negative
    · rw [ofWord?, hnan]
      rfl

/-- The digits of every script are apart from the capitals. -/
theorem toNat_of_decimalDigit? (h : (decimalDigit? c).isSome = true) :
    c.toNat < 58 ∨ 1632 ≤ c.toNat := by
  obtain ⟨d, hd⟩ := Option.isSome_iff_exists.1 h
  obtain ⟨first, hfirst, hlow, hhigh, -⟩ := exists_zero_of_decimalDigit? hd
  have hzeros : ∀ first ∈ digitZeros, first = 48 ∨ 1632 ≤ first := by decide
  have hzero := hzeros first hfirst
  omega

theorem IsFigure.foldCase_not_mem (h : IsFigure c) : foldCase c ∉ wordLetters := by
  rcases h with hdigit | hmark
  · have hrange := toNat_of_decimalDigit? hdigit
    have hforeign := IsFigure.not_isForeignI (.inl hdigit)
    rw [foldCase_eq_self hforeign (by omega)]
    intro hc
    have hletters : wordLetters.all (fun c => !(decimalDigit? c).isSome) = true := by decide
    have hc := List.all_eq_true.1 hletters c hc
    rw [hdigit] at hc
    cases hc
  · have hmarks : decimalMarks.all (fun c => !wordLetters.contains (foldCase c)) = true := by
      decide
    have hc := List.all_eq_true.1 hmarks c hmark
    simpa using hc

/-- No decimal is a word. -/
theorem ofWord?_of_ofDecimal? (h : ofDecimal? negative t = some n) :
    ofWord? negative t = none := by
  cases hword : ofWord? negative t with
  | none => rfl
  | some m =>
    cases t with
    | nil => cases h
    | cons c t =>
      have hletter := foldCase_mem_of_ofWord? hword c (List.mem_cons_self ..)
      have hfigure := isFigure_of_ofDecimal? h c (List.mem_cons_self ..)
      exact absurd hletter hfigure.foldCase_not_mem

/-! ## Numerals -/

theorem letter_true : letter true = foldCase := by
  funext c
  rw [letter, foldCase, Bool.true_and]

theorem ofUnsigned?_eq_some_iff :
    ofUnsigned? negative t = some n ↔ Unsigned true negative t n := by
  rw [ofUnsigned?, Option.or_eq_some_iff, ofWord?_eq_some_iff]
  refine ⟨?_, fun h => ?_⟩
  · rintro ((⟨hwords, rfl⟩ | ⟨hnan, rfl⟩) | ⟨-, hdecimal⟩)
    · exact .infinity (letter_true ▸ hwords)
    · exact .nan (letter_true ▸ hnan)
    · exact unsigned_of_ofDecimal? hdecimal
  · cases h with
    | decimal hs he =>
      have hdecimal := ofDecimal?_of_significand negative hs he
      exact .inr ⟨ofWord?_of_ofDecimal? hdecimal, hdecimal⟩
    | infinity ht => exact .inl (.inl ⟨letter_true ▸ ht, rfl⟩)
    | nan ht => exact .inl (.inr ⟨letter_true ▸ ht, rfl⟩)

/-- No numeral has a sign behind its sign. -/
theorem ofUnsigned?_of_startsWithSign (h : startsWithSign t = true) :
    ofUnsigned? negative t = none := by
  obtain ⟨u, rfl | rfl⟩ := exists_of_startsWithSign h
  · rfl
  · rfl

theorem ofText?_of_not_startsWithSign (h : startsWithSign t = false) :
    ofText? t = ofUnsigned? false t := by
  unfold ofText?
  split
  · cases h
  · cases h
  · rfl

/-- The reader and the grammar agree. -/
theorem ofText?_eq_some_iff : ofText? t = some n ↔ Spells true t n := by
  refine ⟨fun h => ?_, fun h => ?_⟩
  · unfold ofText? at h
    split at h
    · exact .signed .minus (ofUnsigned?_eq_some_iff.1 h)
    · exact .signed .plus (ofUnsigned?_eq_some_iff.1 h)
    · exact .signed .none (ofUnsigned?_eq_some_iff.1 h)
  · cases h with
    | @signed s t _ _ hs ht =>
      have hread := ofUnsigned?_eq_some_iff.2 ht
      cases hs with
      | plus => exact hread
      | minus => exact hread
      | none =>
        -- The reader would take a sign at the front for the one that is missing.
        have hsign : startsWithSign t = false := by
          rw [Bool.eq_false_iff]
          intro hsign
          rw [ofUnsigned?_of_startsWithSign hsign] at hread
          cases hread
        rw [List.nil_append, ofText?_of_not_startsWithSign hsign, hread]

/-! ## Foreign letters -/

/-- Letters that are not foreign are read alike, whether the foreign ones count or not. -/
theorem letter_eq_toLower (h : isForeignI c = false) : letter foreign c = c.toLower := by
  rw [letter, h, Bool.and_false, if_neg (by decide)]

/-- A word has no foreign letter if these do not count. -/
theorem any_isForeignI_of_map_letter
    (h : t.map (letter false) ∈ infinityWords ∨ t.map (letter false) = ['n', 'a', 'n']) :
    t.any isForeignI = false := by
  have hwords : (['n', 'a', 'n'] :: infinityWords).all (fun w => !w.any isForeignI) = true := by
    decide
  have hword := List.all_eq_true.1 hwords _ (List.mem_cons.2 h.symm)
  -- A foreign letter is not changed, so the word would have it too.
  refine List.any_eq_false.2 fun c hc hforeign => ?_
  have hkeep : letter false c = c := by
    rcases eq_of_isForeignI hforeign with rfl | rfl
    · decide
    · decide
  have hmem : c ∈ t.map (letter false) := List.mem_map.2 ⟨c, hc, hkeep⟩
  rw [List.any_eq_true.2 ⟨c, hmem, hforeign⟩] at hword
  cases hword

theorem Unsigned.any_isForeignI (h : Unsigned false negative t n) : t.any isForeignI = false := by
  cases h with
  | decimal hs he =>
    have hdecimal := ofDecimal?_of_significand negative hs he
    refine List.any_eq_false.2 fun c hc => ?_
    rw [(isFigure_of_ofDecimal? hdecimal c hc).not_isForeignI]
    decide
  | infinity ht => exact any_isForeignI_of_map_letter (.inl ht)
  | nan ht => exact any_isForeignI_of_map_letter (.inr ht)

theorem map_letter_eq (h : t.any isForeignI = false) (foreign' : Bool) :
    t.map (letter foreign) = t.map (letter foreign') := by
  refine List.map_congr_left fun c hc => ?_
  have hforeign : isForeignI c = false := by simpa using List.any_eq_false.1 h c hc
  rw [letter_eq_toLower hforeign, letter_eq_toLower hforeign]

theorem Unsigned.of_any_isForeignI (hu : Unsigned foreign negative t n)
    (h : t.any isForeignI = false) (foreign' : Bool) : Unsigned foreign' negative t n := by
  cases hu with
  | decimal hs he => exact .decimal hs he
  | infinity ht => exact .infinity (map_letter_eq h foreign' ▸ ht)
  | nan ht => exact .nan (map_letter_eq h foreign' ▸ ht)

theorem Sign.any_isForeignI (h : Sign s negative) : s.any isForeignI = false := by
  cases h with
  | none => rfl
  | plus => decide
  | minus => decide

/-- The foreign letters add the numerals that have one. -/
theorem spells_false_iff :
    Spells false t n ↔ Spells true t n ∧ t.any isForeignI = false := by
  refine ⟨?_, ?_⟩
  · rintro ⟨hs, ht⟩
    have hforeign := ht.any_isForeignI
    refine ⟨.signed hs (ht.of_any_isForeignI hforeign true), ?_⟩
    rw [List.any_append, hs.any_isForeignI, hforeign]
    rfl
  · rintro ⟨⟨hs, ht⟩, hforeign⟩
    rw [List.any_append, Bool.or_eq_false_iff] at hforeign
    exact .signed hs (ht.of_any_isForeignI hforeign.2 false)

end Numeral

end Formula
