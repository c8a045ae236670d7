/-
  Formula.Proofs.Decimal.Layout

  How a decimal is written out, and that general notation is a numeral of the rounded number.

    * `Layout` — a decimal by its parts: the texts of its sign, its significand and its
      exponent, each with what it denotes.
    * `Layout.text`, `Layout.numeral`, `Layout.value` — what is written, the numeral that it
      is, and the number that this denotes.
    * `Layout.IsGeneral precision q l` — `l` shows the number `q` in general notation.
    * `Layout.ofDigits` — digits before and behind the point and an exponent, without the
      zeros at the end.

  Dropping zeros at the end changes neither the number nor the text beside it, and the point
  moves with the exponent, so all three forms of general notation denote the rounded figures
  (`Layout.value_ofDigits`); the rest is about rounding. `exists_layout_generalFraction` puts both
  together for every fraction.
-/
import Mathlib.Data.List.DropRight
import Formula.Decimal.Notation
import Formula.Proofs.Decimal.Reading
import Formula.Proofs.Decimal.Rounding

namespace Formula

variable {ds es whole rest : List Nat} {t : Text} {e : ℤ} {n d width precision : Nat}
  {negative : Bool} {q : ℚ}

/-! ## Digits -/

theorem foldl_digits (k : Nat) (ds : List Nat) :
    ds.foldl (fun n d => 10 * n + d) k = k * 10 ^ ds.length + digitsValue ds := by
  induction ds generalizing k with
  | nil => simp [digitsValue]
  | cons d ds ih =>
    rw [digitsValue, List.foldl_cons, List.foldl_cons, ih, ih (10 * 0 + d), List.length_cons]
    ring

theorem digitsValue_append (ds es : List Nat) :
    digitsValue (ds ++ es) = digitsValue ds * 10 ^ es.length + digitsValue es := by
  rw [digitsValue, List.foldl_append, foldl_digits, ← digitsValue]

theorem digitsValue_eq_zero (h : ∀ d ∈ ds, d = 0) : digitsValue ds = 0 := by
  induction ds with
  | nil => rfl
  | cons d ds ih =>
    obtain ⟨rfl, hds⟩ := List.forall_mem_cons.1 h
    exact ih hds

/-- The last `width` digits of a number. -/
def lastDigits : (width n : Nat) → List Nat
  | 0, _ => []
  | width + 1, n => lastDigits width (n / 10) ++ [n % 10]

@[simp] theorem length_lastDigits (width n : Nat) : (lastDigits width n).length = width := by
  induction width generalizing n with
  | zero => rfl
  | succ width ih => simp [lastDigits, ih]

theorem lt_ten_of_mem_lastDigits (h : d ∈ lastDigits width n) : d < 10 := by
  induction width generalizing n with
  | zero => cases h
  | succ width ih =>
    rcases List.mem_append.1 h with h | h
    · exact ih h
    · rw [List.mem_singleton.1 h]
      exact Nat.mod_lt n (by decide)

theorem digitsValue_lastDigits (h : n < 10 ^ width) : digitsValue (lastDigits width n) = n := by
  induction width generalizing n with
  | zero =>
    obtain rfl : n = 0 := by simpa using h
    rfl
  | succ width ih =>
    have hrest : n / 10 < 10 ^ width := by
      rw [pow_succ] at h
      omega
    rw [lastDigits, digitsValue_append, ih hrest]
    show n / 10 * 10 ^ 1 + (10 * 0 + n % 10) = n
    omega

/-- Figures are written digit by digit. -/
theorem figures_eq_map (width n : Nat) :
    figures 10 width n = (lastDigits width n).map Nat.digitChar := by
  induction width generalizing n with
  | zero => rfl
  | succ width ih => rw [figures, lastDigits, List.map_append, ih, List.map_singleton]

/-- The figures of digits are digits of these values. -/
theorem Numeral.digits_map (h : ∀ d ∈ ds, d < 10) : Digits (ds.map Nat.digitChar) ds := by
  induction ds with
  | nil => exact .nil
  | cons d ds ih =>
    obtain ⟨hd, hds⟩ := List.forall_mem_cons.1 h
    exact .cons (decimalDigit?_digitChar hd) (ih hds)

/-! ## Zeros at the end -/

/-- Whether a digit is written as a zero. -/
def isZeroFigure (d : Nat) : Bool :=
  Nat.digitChar d == '0'

theorem eq_zero_of_isZeroFigure (hd : d < 10) (h : isZeroFigure d = true) : d = 0 := by
  have hchar : Nat.digitChar d = '0' := by simpa [isZeroFigure] using h
  have hdigit := decimalDigit?_digitChar hd
  rw [hchar] at hdigit
  exact (Option.some.inj hdigit).symm

theorem withoutTrailingZeros_map (ds : List Nat) :
    Notation.withoutTrailingZeros (ds.map Nat.digitChar) =
      (ds.rdropWhile isZeroFigure).map Nat.digitChar := by
  rw [Notation.withoutTrailingZeros, ← List.map_reverse, List.dropWhile_map, ← List.map_reverse]
  rfl

theorem getLast?_rdropWhile_ne (ds : List Nat) :
    (ds.rdropWhile isZeroFigure).getLast? ≠ some 0 := by
  intro h
  have hne : ds.rdropWhile isZeroFigure ≠ [] := by
    intro hnil
    rw [hnil] at h
    cases h
  have hnot := List.rdropWhile_last_not isZeroFigure ds hne
  rw [List.getLast?_eq_some_getLast hne, Option.some.injEq] at h
  rw [h] at hnot
  exact hnot rfl

/-- Zeros at the end shift the digits before them. -/
theorem exists_digitsValue_rdropWhile (whole : List Nat) (hrest : ∀ d ∈ rest, d < 10) :
    ∃ k, rest.length = (rest.rdropWhile isZeroFigure).length + k ∧
      digitsValue (whole ++ rest) =
        digitsValue (whole ++ rest.rdropWhile isZeroFigure) * 10 ^ k := by
  have hsplit : rest.rdropWhile isZeroFigure ++ rest.rtakeWhile isZeroFigure = rest :=
    List.rdropWhile_append_rtakeWhile
  have hzeros : ∀ d ∈ rest.rtakeWhile isZeroFigure, d = 0 := by
    intro d hd
    refine eq_zero_of_isZeroFigure (hrest d ?_) (List.mem_rtakeWhile_imp hd)
    rw [← hsplit]
    exact List.mem_append_right _ hd
  refine ⟨(rest.rtakeWhile isZeroFigure).length, ?_, ?_⟩
  · rw [← List.length_append, hsplit]
  · conv_lhs => rw [← hsplit, ← List.append_assoc, digitsValue_append, digitsValue_eq_zero hzeros]
    rw [Nat.add_zero]

/-! ## Layouts -/

/-- A number, or its opposite if `negative`. -/
def oriented (negative : Bool) (q : ℚ) : ℚ :=
  if negative then -q else q

@[simp] theorem abs_oriented (negative : Bool) (q : ℚ) : |oriented negative q| = |q| := by
  cases negative with
  | false => rfl
  | true => exact abs_neg q

theorem oriented_sub (negative : Bool) (p q : ℚ) :
    oriented negative p - oriented negative q = oriented negative (p - q) := by
  cases negative with
  | false => rfl
  | true => exact (neg_sub_neg p q).trans (neg_sub p q).symm

open Numeral (Sign Significand Exponent Spells)

/-- A decimal by its parts, each as it is written and with what it denotes. -/
structure Layout where
  sign : Text
  significand : Text
  scale : Text
  negative : Bool
  whole : List Nat
  fraction : List Nat
  exponent : ℤ
  isSign : Sign sign negative
  isSignificand : Significand significand whole fraction
  isExponent : Exponent scale exponent

namespace Layout

def text (l : Layout) : Text :=
  l.sign ++ (l.significand ++ l.scale)

def numeral (l : Layout) : Numeral :=
  .decimal l.negative (digitsValue (l.whole ++ l.fraction)) (l.exponent - l.fraction.length)

/-- The exact number that a decimal denotes. -/
def value (l : Layout) : ℚ :=
  oriented l.negative
    (digitsValue (l.whole ++ l.fraction) * 10 ^ (l.exponent - l.fraction.length))

/-- What is laid out spells its numeral. -/
theorem spells (l : Layout) (foreign : Bool) : Spells foreign l.text l.numeral :=
  .signed l.isSign (.decimal l.isSignificand l.isExponent)

/-- A decimal shows the number `q` in general notation with `precision` figures. -/
structure IsGeneral (precision : Nat) (q : ℚ) (l : Layout) : Prop where
  /-- It has at most `precision` significant digits. -/
  short : digitsValue (l.whole ++ l.fraction) < 10 ^ precision
  /-- It is within half a unit of the last figure that is kept of `q`. -/
  near : |l.value - q| ≤ 10 ^ (Int.log 10 |q| - (precision - 1)) / 2
  /-- No zero ends the digits behind the point. -/
  trimmed : l.fraction.getLast? ≠ some 0
  /-- A point has digits behind it. -/
  pointed : '.' ∈ l.significand → l.fraction ≠ []
  /-- The exponent is written exactly if positional notation would take many zeros. -/
  scaled : l.scale ≠ [] ↔
    Int.log 10 |l.value| < -4 ∨ (precision : ℤ) ≤ Int.log 10 |l.value|

/-! ## Layouts of digits -/

theorem mem_rdropWhile (hd : d ∈ rest.rdropWhile isZeroFigure) : d ∈ rest :=
  (List.rdropWhile_prefix isZeroFigure rest).subset hd

theorem significand_pointed (hne : whole ≠ []) (hwhole : ∀ d ∈ whole, d < 10)
    (hrest : ∀ d ∈ rest, d < 10) :
    Significand (Notation.pointed (whole.map Nat.digitChar)
      (Notation.withoutTrailingZeros (rest.map Nat.digitChar)))
      whole (rest.rdropWhile isZeroFigure) := by
  have hfraction := Numeral.digits_map fun d hd => hrest d (mem_rdropWhile hd)
  rw [withoutTrailingZeros_map, Notation.pointed]
  split
  · rename_i hnil
    rw [List.map_eq_nil_iff.1 hnil]
    exact .whole (Numeral.digits_map hwhole) hne
  · exact .point (Numeral.digits_map hwhole) hne hfraction

/-- The layout of digits before and behind the point, without the zeros at the end, and an
    exponent. -/
def ofDigits (negative : Bool) (hne : whole ≠ []) (hwhole : ∀ d ∈ whole, d < 10)
    (hrest : ∀ d ∈ rest, d < 10) (he : Exponent t e) : Layout where
  sign := if negative then ['-'] else []
  significand := Notation.pointed (whole.map Nat.digitChar)
    (Notation.withoutTrailingZeros (rest.map Nat.digitChar))
  scale := t
  negative := negative
  whole := whole
  fraction := rest.rdropWhile isZeroFigure
  exponent := e
  isSign := by
    cases negative with
    | false => exact .none
    | true => exact .minus
  isSignificand := significand_pointed hne hwhole hrest
  isExponent := he

section OfDigits

variable {hne : whole ≠ []} {hwhole : ∀ d ∈ whole, d < 10} {hrest : ∀ d ∈ rest, d < 10}
  {he : Exponent t e}

theorem text_ofDigits :
    (ofDigits negative hne hwhole hrest he).text =
      Notation.signed negative (Notation.pointed (whole.map Nat.digitChar)
        (Notation.withoutTrailingZeros (rest.map Nat.digitChar)) ++ t) := by
  cases negative <;> rfl

/-- The zeros at the end do not count. -/
theorem value_ofDigits :
    (ofDigits negative hne hwhole hrest he).value =
      oriented negative (digitsValue (whole ++ rest) * 10 ^ (e - rest.length)) := by
  obtain ⟨k, hlength, hvalue⟩ := exists_digitsValue_rdropWhile whole hrest
  show oriented negative (digitsValue (whole ++ rest.rdropWhile isZeroFigure) * 10 ^ _) = _
  rw [hvalue, hlength]
  push_cast
  rw [mul_assoc, ← zpow_natCast, ← zpow_add₀ (by norm_num)]
  congr 3
  show e - ((rest.rdropWhile isZeroFigure).length : ℤ) = _
  ring

theorem digitsValue_ofDigits_le :
    digitsValue ((ofDigits negative hne hwhole hrest he).whole ++
      (ofDigits negative hne hwhole hrest he).fraction) ≤ digitsValue (whole ++ rest) := by
  obtain ⟨k, -, hvalue⟩ := exists_digitsValue_rdropWhile whole hrest
  rw [hvalue]
  exact Nat.le_mul_of_pos_right _ (Nat.pow_pos (by decide))

theorem fraction_ne_nil_of_mem (h : '.' ∈ (ofDigits negative hne hwhole hrest he).significand) :
    (ofDigits negative hne hwhole hrest he).fraction ≠ [] := by
  intro hnil
  have hnil : rest.rdropWhile isZeroFigure = [] := hnil
  have hmem : '.' ∈ whole.map Nat.digitChar := by
    have hsignificand : (ofDigits negative hne hwhole hrest he).significand =
        whole.map Nat.digitChar := by
      show Notation.pointed _ _ = _
      rw [withoutTrailingZeros_map, hnil]
      exact if_pos rfl
    rwa [hsignificand] at h
  -- The point would be a figure.
  obtain ⟨d, hd, hchar⟩ := List.mem_map.1 hmem
  have hdigit := decimalDigit?_digitChar (hwhole d hd)
  rw [hchar] at hdigit
  cases hdigit

/-- Digits that are the rounded figures of a fraction show it in general notation, whatever
    the place of the point, if the exponent is written where it should be. -/
theorem isGeneral_ofDigits (hn : 0 < n) (hd : 0 < d) (hprecision : 0 < precision)
    (hvalue : digitsValue (whole ++ rest) = (roundFigures precision n d).figures)
    (hplace : e - rest.length = (roundFigures precision n d).exponent - (precision - 1))
    (hscale : t ≠ [] ↔ (roundFigures precision n d).exponent < -4 ∨
      (precision : ℤ) ≤ (roundFigures precision n d).exponent) :
    (ofDigits negative hne hwhole hrest he).IsGeneral precision (oriented negative (n / d)) := by
  have hshown : (ofDigits negative hne hwhole hrest he).value =
      oriented negative ((roundFigures precision n d).value precision) := by
    rw [value_ofDigits, hvalue, hplace, Rounded.value]
  have hexact : (0 : ℚ) ≤ n / d := by positivity
  have hrounded : 0 ≤ (roundFigures precision n d).value precision := by
    rw [Rounded.value]
    positivity
  refine ⟨?_, ?_, getLast?_rdropWhile_ne rest, fraction_ne_nil_of_mem, ?_⟩
  · refine lt_of_le_of_lt digitsValue_ofDigits_le ?_
    rw [hvalue]
    exact (roundFigures_bounds hn hd hprecision).2
  · rw [hshown, oriented_sub, abs_oriented, abs_oriented, abs_of_nonneg hexact]
    exact abs_value_roundFigures_sub_le hn hd hprecision
  · rw [hshown, abs_oriented, abs_of_nonneg hrounded, log_value_roundFigures hn hd hprecision]
    exact hscale

end OfDigits

end Layout

/-! ## General notation -/

/-- The exponent of scientific notation is read back. -/
theorem Numeral.exponent_exponentPart (e : ℤ) : Exponent (Notation.exponentPart e) e := by
  have hdigits : ∀ width, e.natAbs < 10 ^ width →
      Digits (figures 10 width e.natAbs) (lastDigits width e.natAbs) ∧
        digitsValue (lastDigits width e.natAbs) = e.natAbs := by
    intro width hwidth
    rw [figures_eq_map]
    exact ⟨digits_map fun d => lt_ten_of_mem_lastDigits, digitsValue_lastDigits hwidth⟩
  have hwidth : ∃ width, 0 < width ∧ e.natAbs < 10 ^ width ∧
      (if e.natAbs < 100 then 2 else figureCount e.natAbs) = width := by
    split
    · rename_i hsmall
      exact ⟨2, by decide, hsmall, rfl⟩
    · rename_i hlarge
      refine ⟨_, ?_, lt_pow_figureCount _, rfl⟩
      rw [figureCount_of_ne_zero (by omega)]
      exact Nat.succ_pos _
  obtain ⟨width, hpos, hlt, hwidth⟩ := hwidth
  obtain ⟨hfigures, hvalue⟩ := hdigits width hlt
  have hne : lastDigits width e.natAbs ≠ [] := by
    intro hnil
    have := congrArg List.length hnil
    rw [length_lastDigits] at this
    exact hpos.ne' this
  rw [Notation.exponentPart, hwidth]
  by_cases hneg : e < 0
  · have hminus := Exponent.letter (.inl rfl) .minus hfigures hne
    rw [if_pos rfl, hvalue] at hminus
    rw [if_pos hneg]
    rwa [show -(e.natAbs : ℤ) = e by omega] at hminus
  · have hplus := Exponent.letter (.inl rfl) .plus hfigures hne
    rw [if_neg (by decide), hvalue] at hplus
    rw [if_neg hneg]
    rwa [show (e.natAbs : ℤ) = e by omega] at hplus

/-- The digits `ds` are the figures of the rounded fraction `n / d`, and `e` is its decade. -/
structure IsRounded (precision n d : Nat) (ds : List Nat) (e : ℤ) : Prop where
  length_eq : ds.length = precision
  lt_ten : ∀ c ∈ ds, c < 10
  value_eq : digitsValue ds = (roundFigures precision n d).figures
  exponent_eq : (roundFigures precision n d).exponent = e

theorem isRounded_lastDigits (hn : 0 < n) (hd : 0 < d) (hprecision : 0 < precision) :
    IsRounded precision n d (lastDigits precision (roundFigures precision n d).figures)
      (roundFigures precision n d).exponent where
  length_eq := length_lastDigits _ _
  lt_ten _ := lt_ten_of_mem_lastDigits
  value_eq := digitsValue_lastDigits (roundFigures_bounds hn hd hprecision).2
  exponent_eq := rfl

namespace IsRounded

variable (h : IsRounded precision n d ds e) (negative : Bool) (hn : 0 < n) (hd : 0 < d)
  (hprecision : 0 < precision)
include h

theorem lt_ten_take (k : Nat) : ∀ c ∈ ds.take k, c < 10 :=
  fun c hc => h.lt_ten c (List.mem_of_mem_take hc)

theorem lt_ten_drop (k : Nat) : ∀ c ∈ ds.drop k, c < 10 :=
  fun c hc => h.lt_ten c (List.mem_of_mem_drop hc)

include hprecision in
theorem take_ne_nil {k : Nat} (hk : 0 < k) : ds.take k ≠ [] := by
  intro hnil
  have hlength := congrArg List.length hnil
  rw [List.length_take, h.length_eq, List.length_nil] at hlength
  omega

include hn hd hprecision

/-- Positional notation from one on: the point stands behind the place of the units. -/
theorem exists_layout_of_nonneg (hnonneg : 0 ≤ e) (hlt : e < precision) :
    ∃ l : Layout,
      l.text = Notation.signed negative (Notation.positional (ds.map Nat.digitChar) e) ∧
        l.negative = negative ∧ l.IsGeneral precision (oriented negative (n / d)) := by
  refine ⟨.ofDigits negative (h.take_ne_nil hprecision (Nat.succ_pos e.toNat))
    (h.lt_ten_take _) (h.lt_ten_drop (e.toNat + 1)) .none, ?_, rfl, ?_⟩
  · rw [Layout.text_ofDigits, List.append_nil, List.map_take, List.map_drop, Notation.positional,
      if_pos hnonneg]
  · refine Layout.isGeneral_ofDigits hn hd hprecision ?_ ?_ ?_
    · rw [List.take_append_drop, h.value_eq]
    · rw [List.length_drop, h.length_eq, h.exponent_eq]
      omega
    · rw [h.exponent_eq]
      exact ⟨fun hne => absurd rfl hne, fun hrange => by omega⟩

/-- Positional notation below one: zeros stand before the figures, one of them before the
    point. -/
theorem exists_layout_of_neg (hneg : e < 0) (hle : -4 ≤ e) :
    ∃ l : Layout,
      l.text = Notation.signed negative (Notation.positional (ds.map Nat.digitChar) e) ∧
        l.negative = negative ∧ l.IsGeneral precision (oriented negative (n / d)) := by
  have hten : ∀ c ∈ List.replicate ((-e).toNat - 1) 0 ++ ds, c < 10 := by
    intro c hc
    rcases List.mem_append.1 hc with hc | hc
    · rw [List.eq_of_mem_replicate hc]
      decide
    · exact h.lt_ten c hc
  refine ⟨.ofDigits negative (List.cons_ne_nil 0 []) (by decide) hten .none, ?_, rfl, ?_⟩
  · rw [Layout.text_ofDigits, List.append_nil, List.map_append, List.map_replicate,
      Notation.positional, if_neg (by omega)]
    rfl
  · refine Layout.isGeneral_ofDigits hn hd hprecision ?_ ?_ ?_
    · have hzeros : ∀ c ∈ [0] ++ List.replicate ((-e).toNat - 1) 0, c = 0 := by
        intro c hc
        rcases List.mem_append.1 hc with hc | hc
        · exact List.mem_singleton.1 hc
        · exact List.eq_of_mem_replicate hc
      rw [← List.append_assoc, digitsValue_append, digitsValue_eq_zero hzeros, Nat.zero_mul,
        Nat.zero_add, h.value_eq]
    · rw [List.length_append, List.length_replicate, h.length_eq, h.exponent_eq]
      omega
    · rw [h.exponent_eq]
      exact ⟨fun hne => absurd rfl hne, fun hrange => by omega⟩

/-- Notation with an exponent: one figure stands before the point. -/
theorem exists_layout_exponential (hout : e < -4 ∨ (precision : ℤ) ≤ e) :
    ∃ l : Layout,
      l.text = Notation.signed negative (Notation.exponential (ds.map Nat.digitChar) e) ∧
        l.negative = negative ∧ l.IsGeneral precision (oriented negative (n / d)) := by
  refine ⟨.ofDigits negative (h.take_ne_nil hprecision Nat.one_pos) (h.lt_ten_take 1)
    (h.lt_ten_drop 1) (Numeral.exponent_exponentPart e), ?_, rfl, ?_⟩
  · rw [Layout.text_ofDigits, List.map_take, List.map_drop, Notation.exponential]
  · refine Layout.isGeneral_ofDigits hn hd hprecision ?_ ?_ ?_
    · rw [List.take_append_drop, h.value_eq]
    · rw [List.length_drop, h.length_eq, h.exponent_eq]
      omega
    · rw [h.exponent_eq]
      exact ⟨fun _ => hout, fun _ => List.cons_ne_nil _ _⟩

end IsRounded

/-- General notation of a positive fraction. -/
theorem exists_layout_generalFraction (negative : Bool) (hn : 0 < n) (hd : 0 < d)
    (hprecision : 0 < precision) :
    ∃ l : Layout,
      l.text = Notation.signed negative (Notation.generalFraction precision n d) ∧
        l.negative = negative ∧ l.IsGeneral precision (oriented negative (n / d)) := by
  have h := isRounded_lastDigits hn hd hprecision
  rw [Notation.generalFraction, if_neg hn.ne', Notation.generalFigures, figures_eq_map]
  split
  · rename_i hpositional
    rcases lt_or_ge (roundFigures precision n d).exponent 0 with hneg | hnonneg
    · exact h.exists_layout_of_neg negative hn hd hprecision hneg hpositional.1
    · exact h.exists_layout_of_nonneg negative hn hd hprecision hnonneg hpositional.2
  · exact h.exists_layout_exponential negative hn hd hprecision (by omega)

/-- Zero is one digit. -/
theorem exists_layout_zero (negative : Bool) :
    ∃ l : Layout, l.text = Notation.signed negative ['0'] ∧ l.negative = negative ∧
      l.value = 0 := by
  refine ⟨.ofDigits negative (List.cons_ne_nil 0 []) (by decide) (List.forall_mem_nil _) .none,
    ?_, rfl, ?_⟩
  · cases negative <;> rfl
  · rw [Layout.value_ofDigits]
    cases negative <;> simp [oriented, digitsValue]

end Formula
