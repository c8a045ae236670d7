/-
  Formula.Proofs.Decimal.Characters

  The characters of numerals: digits of any script, signs, a point and letters. None
  of them is blank, so a text with a blank in it writes no number.

    * `Numeral.IsFigure c` — `c` can occur in a decimal.
    * `Numeral.IsMark c` — `c` can occur in a numeral.
    * `Numeral.isMark_of_ofText?` — only such characters do.
    * `not_isBlank_of_readNumber` — hence no text that is read as a number has a blank.
-/
import Formula.Decimal.Reading

namespace Formula

/-! ## Blanks -/

theorem toNat_of_isBlank {c : Char} (h : isBlank c = true) :
    c.toNat ≤ 32 ∨ 133 ≤ c.toNat ∧ c.toNat ≤ 160 ∨ 5760 ≤ c.toNat := by
  obtain ⟨run, hrun, hc⟩ := List.any_eq_true.1 h
  simp only [Bool.and_eq_true, decide_eq_true_eq] at hc
  have hruns : ∀ run ∈ blankRuns,
      run.2 ≤ 32 ∨ 133 ≤ run.1 ∧ run.2 ≤ 160 ∨ 5760 ≤ run.1 := by decide
  have := hruns run hrun
  omega

/-- No run of blanks meets the ten digits of a script. -/
theorem digitZeros_apart_blankRuns : ∀ first ∈ digitZeros, ∀ run ∈ blankRuns,
    run.2 < first ∨ first + 10 ≤ run.1 := by
  decide

theorem not_isBlank_of_decimalDigit? {c : Char} (h : (decimalDigit? c).isSome = true) :
    isBlank c = false := by
  rw [Bool.eq_false_iff]
  intro hblank
  obtain ⟨run, hrun, hc⟩ := List.any_eq_true.1 hblank
  obtain ⟨d, hd⟩ := Option.isSome_iff_exists.1 h
  obtain ⟨first, hfirst, hlow, hhigh, -⟩ := exists_zero_of_decimalDigit? hd
  -- The script that `c` is a digit of would meet the run of blanks that it is in.
  have hapart := digitZeros_apart_blankRuns first hfirst run hrun
  simp only [Bool.and_eq_true, decide_eq_true_eq] at hc
  omega

namespace Numeral

/-- A character that is neither a capital nor foreign has no case. -/
theorem foldCase_eq_self {c : Char} (hforeign : isForeignI c = false)
    (hcapital : c.toNat < 65 ∨ 90 < c.toNat) : foldCase c = c := by
  have hupper : ¬ (c.val ≥ 'A'.val ∧ c.val ≤ 'Z'.val) := by
    rintro ⟨hlow, hhigh⟩
    have hlow' : 65 ≤ c.toNat := UInt32.le_iff_toNat_le.1 hlow
    have hhigh' : c.toNat ≤ 90 := UInt32.le_iff_toNat_le.1 hhigh
    omega
  have hlower : c.toLower = c := dif_neg hupper
  rw [foldCase, hforeign, if_neg (by decide), hlower]

/-- A blank is no letter, so it has no case. -/
theorem foldCase_of_isBlank {c : Char} (h : isBlank c = true) : foldCase c = c := by
  have hrange := toNat_of_isBlank h
  have hforeign : isForeignI c = false := by
    rw [Bool.eq_false_iff]
    intro hi
    simp only [isForeignI, Bool.or_eq_true, decide_eq_true_eq] at hi
    rcases hi with rfl | rfl
    · exact absurd h (by decide)
    · exact absurd h (by decide)
  -- The capitals lie between two runs of blanks.
  exact foldCase_eq_self hforeign (by omega)

/-- The letters of the numerals that are words. -/
def wordLetters : List Char :=
  ['i', 'n', 'f', 't', 'y', 'a']

/-- The characters of a decimal that are no digits. -/
def decimalMarks : List Char :=
  ['+', '-', '.', 'e', 'E']

/-- The characters that can occur in a decimal. -/
def IsFigure (c : Char) : Prop :=
  (decimalDigit? c).isSome = true ∨ c ∈ decimalMarks

/-- The characters that can occur in a numeral. -/
def IsMark (c : Char) : Prop :=
  IsFigure c ∨ foldCase c ∈ wordLetters

/-- No character of a numeral is blank. -/
theorem IsMark.not_isBlank {c : Char} (h : IsMark c) : isBlank c = false := by
  rcases h with (hdigit | hmark) | hletter
  · exact not_isBlank_of_decimalDigit? hdigit
  · have hmarks : decimalMarks.all (fun c => !isBlank c) = true := by decide
    simpa using List.all_eq_true.1 hmarks c hmark
  · rw [Bool.eq_false_iff]
    intro hblank
    rw [foldCase_of_isBlank hblank] at hletter
    have hletters : wordLetters.all (fun c => !isBlank c) = true := by decide
    have hc := List.all_eq_true.1 hletters c hletter
    rw [hblank] at hc
    cases hc

/-! ## Words -/

theorem foldCase_mem_of_ofWord? {negative : Bool} {t : Text} {n : Numeral}
    (h : ofWord? negative t = some n) : ∀ c ∈ t, foldCase c ∈ wordLetters := by
  have hword : (t.map foldCase).all wordLetters.contains = true := by
    unfold ofWord? at h
    simp only at h
    split at h
    · rename_i hcase
      rcases hcase with heq | heq
      · rw [heq]; decide
      · rw [heq]; decide
    · split at h
      · rename_i heq
        rw [heq]; decide
      · cases h
  intro c hc
  have hfold := List.all_eq_true.1 hword _ (List.mem_map_of_mem hc)
  exact List.contains_iff_mem.1 hfold

theorem isMark_of_ofWord? {negative : Bool} {t : Text} {n : Numeral}
    (h : ofWord? negative t = some n) : ∀ c ∈ t, IsMark c :=
  fun c hc => .inr (foldCase_mem_of_ofWord? h c hc)

/-! ## Decimals -/

/-- A character of a text is a digit of the run at its front or stands behind that. -/
theorem isSome_or_mem_digitRun {t : Text} {c : Char} (h : c ∈ t) :
    (decimalDigit? c).isSome = true ∨ c ∈ (digitRun t).2 := by
  induction t with
  | nil => cases h
  | cons c' rest ih =>
    rw [digitRun]
    cases hd : decimalDigit? c' with
    | none => exact .inr h
    | some d =>
      rcases List.mem_cons.1 h with rfl | h
      · exact .inl (by rw [hd]; rfl)
      · exact ih h

theorem isSome_of_allDigits? {t : Text} {n : Nat} (h : allDigits? t = some n) :
    ∀ c ∈ t, (decimalDigit? c).isSome = true := by
  intro c hc
  unfold allDigits? at h
  split at h
  · rename_i hrun
    rcases isSome_or_mem_digitRun hc with hdigit | hmem
    · exact hdigit
    · rw [hrun] at hmem
      cases hmem
  · cases h

/-- An exponent part is a letter, a sign and digits. -/
theorem isFigure_of_exponent? {t : Text} {e : Int} (h : exponent? t = some e) :
    ∀ c ∈ t, IsFigure c := by
  -- Behind the letter and the sign, whichever they are, there are only digits.
  have hdigits : ∀ (ds : Text) (g : Int → Int),
      ((allDigits? ds).bind fun n => some (n : Int)).map g = some e → ∀ c ∈ ds, IsFigure c := by
    intro ds g hds c hc
    obtain ⟨m, hm, -⟩ := Option.map_eq_some_iff.1 hds
    obtain ⟨n, hn, -⟩ := Option.bind_eq_some_iff.1 hm
    exact .inl (isSome_of_allDigits? hn c hc)
  have hminus : IsFigure '-' := .inr (by decide)
  have hplus : IsFigure '+' := .inr (by decide)
  unfold exponent? at h
  split at h
  · exact List.forall_mem_nil _
  · rename_i c rest
    split at h
    · rename_i hletter
      have hc : IsFigure c := by
        rcases hletter with rfl | rfl
        · exact .inr (by decide)
        · exact .inr (by decide)
      refine List.forall_mem_cons.2 ⟨hc, ?_⟩
      split at h
      · exact List.forall_mem_cons.2 ⟨hminus, hdigits _ _ h⟩
      · exact List.forall_mem_cons.2 ⟨hplus, hdigits _ _ h⟩
      · exact hdigits _ _ h
    · cases h

/-- A character behind the digits of a decimal is the point, a digit behind the point or
    in the exponent part. -/
theorem isFigure_or_mem_fractionRun {t : Text} {c : Char} (h : c ∈ t) :
    IsFigure c ∨ c ∈ (fractionRun t).2 := by
  unfold fractionRun
  split
  · rcases List.mem_cons.1 h with rfl | h
    · exact .inl (.inr (by decide))
    · rcases isSome_or_mem_digitRun h with hdigit | hmem
      · exact .inl (.inl hdigit)
      · exact .inr hmem
  · exact .inr h

theorem isFigure_of_ofDecimal? {negative : Bool} {t : Text} {n : Numeral}
    (h : ofDecimal? negative t = some n) : ∀ c ∈ t, IsFigure c := by
  intro c hc
  unfold ofDecimal? at h
  simp only at h
  split at h
  · cases h
  · obtain ⟨e, he, -⟩ := Option.map_eq_some_iff.1 h
    -- From the front: the digits, the point with its digits, the exponent part.
    rcases isSome_or_mem_digitRun hc with hdigit | hmem
    · exact .inl hdigit
    · rcases isFigure_or_mem_fractionRun hmem with hfigure | hmem
      · exact hfigure
      · exact isFigure_of_exponent? he c hmem

/-! ## Numerals -/

theorem isMark_of_ofUnsigned? {negative : Bool} {t : Text} {n : Numeral}
    (h : ofUnsigned? negative t = some n) : ∀ c ∈ t, IsMark c := by
  rw [ofUnsigned?] at h
  cases hword : ofWord? negative t with
  | some m => exact isMark_of_ofWord? hword
  | none =>
    rw [hword, Option.none_or] at h
    exact fun c hc => .inl (isFigure_of_ofDecimal? h c hc)

theorem isMark_of_ofText? {t : Text} {n : Numeral} (h : ofText? t = some n) :
    ∀ c ∈ t, IsMark c := by
  unfold ofText? at h
  split at h
  · exact List.forall_mem_cons.2 ⟨.inl (.inr (by decide)), isMark_of_ofUnsigned? h⟩
  · exact List.forall_mem_cons.2 ⟨.inl (.inr (by decide)), isMark_of_ofUnsigned? h⟩
  · exact isMark_of_ofUnsigned? h

end Numeral

/-- A text that is read as a number has no blank in it. -/
theorem not_isBlank_of_readNumber {t : Text} {x : Float} (h : readNumber t = .ok (some x)) :
    ∀ c ∈ t, isBlank c = false := by
  unfold readNumber at h
  split at h
  · cases h
  · rename_i n hn
    have hmark := Numeral.isMark_of_ofText? hn
    unfold withMinus at hmark
    split at hmark
    · obtain ⟨-, hrest⟩ := List.forall_mem_cons.1 hmark
      exact List.forall_mem_cons.2 ⟨by decide, fun c hc => (hrest c hc).not_isBlank⟩
    · exact fun c hc => (hmark c hc).not_isBlank

end Formula
