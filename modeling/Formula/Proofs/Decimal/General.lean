/-
  Formula.Proofs.Decimal.General

  The text of a number is a number again, to six figures.

    * `Renders x t n` — the text `t` shows the float `x`: it is the numeral `n`, is read as
      its float, and agrees with `x` in kind, in sign and up to rounding.

  The words for infinities and for what is no number are numerals, and general notation of a
  fraction is one by `exists_layout_generalFraction`. Rounding to six figures never reaches
  the limit of what is read as a finite float: from `10 ^ 308` on the rounded number counts
  units of `10 ^ 303`, and the limit is less than half a unit above a whole number of them
  (`Layout.IsGeneral.magnitude_lt`). Reverse Polish order writes each number token by this
  text and keeps its number.
-/
import Formula.Expression
import Formula.Proofs.Decimal.Finite
import Formula.Proofs.Expression.Construction
import Formula.Proofs.Polish.Conservation

namespace Formula

open Numeral (Spells)

variable {t : Text} {n : Numeral} {q : ℚ} {l : Layout} {x : Float}

/-! ## Reading -/

theorem withMinus_of_spells (h : Spells false t n) : withMinus t = t := by
  have hread := Numeral.ofText?_eq_some_iff.2 (Numeral.spells_false_iff.1 h).1
  unfold withMinus
  split
  · -- No numeral begins with a tilde.
    cases hread
  · rfl

/-- A numeral without foreign letters is read as its float. -/
theorem readNumber_of_spells (h : Spells false t n) : readNumber t = .ok (some n.toFloat) :=
  readNumber_eq_some_iff.2 ⟨n, by rwa [withMinus_of_spells h], rfl⟩

/-! ## Range -/

theorem Layout.abs_value (l : Layout) :
    |l.value| = digitsValue (l.whole ++ l.fraction) * 10 ^ (l.exponent - l.fraction.length) := by
  rw [Layout.value, abs_oriented, abs_of_nonneg (by positivity)]

/-- The limit in units of its sixth figure: half a unit does not take it to the next one. -/
theorem finiteLimit_bounds :
    179769 * 10 ^ (303 : ℤ) < finiteLimit ∧
      finiteLimit + 10 ^ (303 : ℤ) / 2 < 179770 * 10 ^ (303 : ℤ) := by
  have hlow : (179769 : ℚ) * 10 ^ (303 : ℤ) + 2 ^ (971 : ℤ) < 2 ^ (1024 : ℤ) := by
    have : 179769 * 10 ^ 303 + 2 ^ 971 < 2 ^ 1024 := by decide +kernel
    exact_mod_cast this
  have hhigh : (2 : ℚ) * 2 ^ (1024 : ℤ) + 10 ^ (303 : ℤ) <
      2 * (179770 * 10 ^ (303 : ℤ)) + 2 * 2 ^ (971 : ℤ) := by
    have : 2 * 2 ^ 1024 + 10 ^ 303 < 2 * (179770 * 10 ^ 303) + 2 * 2 ^ 971 := by decide +kernel
    exact_mod_cast this
  rw [finiteLimit]
  -- The powers are too large to be computed by arithmetic on fractions.
  generalize (2 : ℚ) ^ (1024 : ℤ) = limit at hlow hhigh ⊢
  generalize (2 : ℚ) ^ (971 : ℤ) = place at hlow hhigh ⊢
  generalize (10 : ℚ) ^ (303 : ℤ) = unit at hlow hhigh ⊢
  constructor
  · linarith
  · linarith

/-- Rounding to six figures does not reach the limit from below. -/
theorem Layout.IsGeneral.magnitude_lt (h : l.IsGeneral 6 q) (hq₀ : q ≠ 0) (hq : |q| ≤ finiteLimit) :
    (digitsValue (l.whole ++ l.fraction) : ℚ) * 10 ^ (l.exponent - l.fraction.length) <
      finiteLimit := by
  obtain ⟨hlow, hhigh⟩ := finiteLimit_bounds
  have hshort : (digitsValue (l.whole ++ l.fraction) : ℚ) < 10 ^ 6 := by exact_mod_cast h.short
  have hshown := l.abs_value
  generalize digitsValue (l.whole ++ l.fraction) = figures at hshort hshown ⊢
  generalize l.exponent - l.fraction.length = k at hshown ⊢
  rcases lt_or_ge k 303 with hk | hk
  · calc (figures : ℚ) * 10 ^ k ≤ 10 ^ 6 * 10 ^ k := by gcongr
      _ = 10 ^ 5 * 10 ^ (k + 1) := by
          rw [zpow_add_one₀ (by norm_num)]
          ring
      _ ≤ 179769 * 10 ^ (303 : ℤ) := by
          gcongr
          · norm_num
          · norm_num
          · omega
      _ < finiteLimit := hlow
  · -- The number counts units of `10 ^ 303`, and it is within half of one of `q`.
    obtain ⟨j, rfl⟩ := Int.le.dest hk
    have hunits : (figures : ℚ) * 10 ^ (303 + (j : ℤ)) =
        (figures * 10 ^ j : Nat) * 10 ^ (303 : ℤ) := by
      rw [zpow_add₀ (by norm_num), zpow_natCast, Nat.cast_mul, Nat.cast_pow, Nat.cast_ofNat,
        mul_comm (10 ^ (303 : ℤ)), mul_assoc]
    have hlog : Int.log 10 |q| < 309 :=
      (Int.lt_zpow_iff_log_lt (by decide) (abs_pos.2 hq₀)).1
        (hq.trans_lt (by exact_mod_cast finiteLimit_lt))
    have hhalf : (10 : ℚ) ^ (Int.log 10 |q| - ((6 : Nat) - 1)) / 2 ≤ 10 ^ (303 : ℤ) / 2 := by
      gcongr
      · norm_num
      · omega
    have hnear := (abs_sub_abs_le_abs_sub l.value q).trans (h.near.trans hhalf)
    have hunit : (0 : ℚ) < 10 ^ (303 : ℤ) := by positivity
    rw [hshown, hunits] at hnear
    rw [hunits]
    generalize (10 : ℚ) ^ (303 : ℤ) = unit at hlow hhigh hnear hunit ⊢
    have hlt : ((figures * 10 ^ j : Nat) : ℚ) < (179770 : Nat) := by
      refine lt_of_mul_lt_mul_right ?_ hunit.le
      rw [Nat.cast_ofNat]
      linarith
    have hle : ((figures * 10 ^ j : Nat) : ℚ) ≤ 179769 := by
      exact_mod_cast Nat.le_of_lt_succ (Nat.cast_lt.1 hlt)
    exact (mul_le_mul_of_nonneg_right hle hunit.le).trans_lt hlow

/-! ## The text of a number -/

/-- The text `t` is the numeral `n`, and it shows the float `x` to six figures. -/
structure Renders (x : Float) (t : Text) (n : Numeral) : Prop where
  spells : Spells false t n
  /-- The text is read as a number. -/
  read : readNumber t = .ok (some n.toFloat)
  infinity_iff : (∃ negative, n = .infinity negative) ↔ x.isInf = true
  nan_iff : (∃ negative, n = .nan negative) ↔ x.isNaN = true
  negative_eq : x.isNaN = false → n.negative = signBit x
  /-- The float that is read is of the same kind. -/
  isInf_toFloat : n.toFloat.isInf = x.isInf
  isNaN_toFloat : n.toFloat.isNaN = x.isNaN
  /-- The float that is read has the same sign. -/
  signBit_toFloat : x.isNaN = false → signBit n.toFloat = signBit x
  /-- A finite float is zero, or it is shown by its exact number in general notation. -/
  general : x.isFinite = true → ∃ q, exactValue? x = some q ∧
    ∃ l : Layout, l.text = t ∧ l.numeral = n ∧ (q = 0 → l.value = 0) ∧
      (q ≠ 0 → l.IsGeneral 6 q)

theorem renders_nan (hNaN : x.isNaN = true) (hInf : x.isInf = false)
    (hvalue : exactValue? x = none) : Renders x ['n', 'a', 'n'] (.nan false) := by
  have hspells : Spells false ['n', 'a', 'n'] (.nan false) := .signed .none (.nan (by decide))
  have hnot : x.isNaN ≠ false := by
    rw [hNaN]
    decide
  have hinfinity : (∃ negative, Numeral.nan false = .infinity negative) ↔ x.isInf = true := by
    rw [hInf]
    exact ⟨nofun, nofun⟩
  have hinfinite : x.isFinite ≠ true := by
    rw [← isSome_exactValue?, hvalue]
    decide
  exact {
    spells := hspells
    read := readNumber_of_spells hspells
    infinity_iff := hinfinity
    nan_iff := ⟨fun _ => hNaN, fun _ => ⟨false, rfl⟩⟩
    negative_eq := fun hnumber => absurd hnumber hnot
    isInf_toFloat := (Numeral.toFloat_nan false).2.trans hInf.symm
    isNaN_toFloat := (Numeral.toFloat_nan false).1.trans hNaN.symm
    signBit_toFloat := fun hnumber => absurd hnumber hnot
    general := fun hfinite => absurd hfinite hinfinite }

theorem renders_infinity (hNaN : x.isNaN = false) (hInf : x.isInf = true)
    (hvalue : exactValue? x = none) :
    Renders x (Notation.signed (signBit x) ['i', 'n', 'f']) (.infinity (signBit x)) := by
  have hspells : Spells false (Notation.signed (signBit x) ['i', 'n', 'f'])
      (.infinity (signBit x)) := by
    have hword : ['i', 'n', 'f'].map (Numeral.letter false) ∈ Numeral.infinityWords := by decide
    cases signBit x with
    | false => exact .signed .none (.infinity hword)
    | true => exact .signed .minus (.infinity hword)
  have hnan : (∃ negative, Numeral.infinity (signBit x) = .nan negative) ↔ x.isNaN = true := by
    rw [hNaN]
    exact ⟨nofun, nofun⟩
  have hinfinite : x.isFinite ≠ true := by
    rw [← isSome_exactValue?, hvalue]
    decide
  obtain ⟨hNaN', hInf', hsign⟩ := Numeral.toFloat_infinity (signBit x)
  exact {
    spells := hspells
    read := readNumber_of_spells hspells
    infinity_iff := ⟨fun _ => hInf, fun _ => ⟨signBit x, rfl⟩⟩
    nan_iff := hnan
    negative_eq := fun _ => rfl
    isInf_toFloat := hInf'.trans hInf.symm
    isNaN_toFloat := hNaN'.trans hNaN.symm
    signBit_toFloat := fun _ => hsign
    general := fun hfinite => absurd hfinite hinfinite }

/-- A layout that shows the exact number of a float. -/
theorem renders_layout (hNaN : x.isNaN = false) (hInf : x.isInf = false)
    (hvalue : exactValue? x = some q) (hnegative : l.negative = signBit x)
    (hzero : q = 0 → l.value = 0) (hgeneral : q ≠ 0 → l.IsGeneral 6 q) :
    Renders x l.text l.numeral := by
  have hlimit : (digitsValue (l.whole ++ l.fraction) : ℚ) * 10 ^ (l.exponent - l.fraction.length) <
      finiteLimit := by
    by_cases hq : q = 0
    · rw [← l.abs_value, hzero hq, abs_zero]
      exact (by positivity : (0 : ℚ) < 179769 * 10 ^ (303 : ℤ)).trans finiteLimit_bounds.1
    · exact (hgeneral hq).magnitude_lt hq (abs_le_finiteLimit hvalue)
  obtain ⟨hNaN', hInf', hsign⟩ := Numeral.toFloat_decimal l.negative hlimit
  have hinfinity : (∃ negative, l.numeral = .infinity negative) ↔ x.isInf = true := by
    rw [hInf]
    exact ⟨nofun, nofun⟩
  have hnan : (∃ negative, l.numeral = .nan negative) ↔ x.isNaN = true := by
    rw [hNaN]
    exact ⟨nofun, nofun⟩
  exact {
    spells := l.spells false
    read := readNumber_of_spells (l.spells false)
    infinity_iff := hinfinity
    nan_iff := hnan
    negative_eq := fun _ => hnegative
    isInf_toFloat := hInf'.trans hInf.symm
    isNaN_toFloat := hNaN'.trans hNaN.symm
    signBit_toFloat := fun _ => hsign.trans hnegative
    general := fun _ => ⟨q, hvalue, l, rfl, rfl, hzero, hgeneral⟩ }

/-- The text of a number shows it. -/
theorem exists_renders (x : Float) : ∃ n, Renders x (formatNumber x) n := by
  rw [formatNumber, general]
  rcases FloatValue.ofFloat_cases x with
    ⟨hof, hNaN, hInf, hvalue⟩ | ⟨hof, hNaN, hInf, hvalue⟩ | ⟨n, d, hd, hof, hNaN, hInf, hvalue⟩
  · rw [hof]
    exact ⟨_, renders_nan hNaN hInf hvalue⟩
  · rw [hof]
    exact ⟨_, renders_infinity hNaN hInf hvalue⟩
  · rw [hof]
    show ∃ m, Renders x (Notation.signed (signBit x) (Notation.generalFraction 6 n d)) m
    rcases Nat.eq_zero_or_pos n with rfl | hn
    · obtain ⟨l, htext, hnegative, hzero⟩ := exists_layout_zero (signBit x)
      have hexact : |oriented (signBit x) ((0 : Nat) / d)| = 0 := by simp
      rw [Notation.generalFraction, if_pos rfl, ← htext]
      exact ⟨_, renders_layout hNaN hInf hvalue hnegative (fun _ => hzero)
        fun hne => absurd (abs_eq_zero.1 hexact) hne⟩
    · obtain ⟨l, htext, hnegative, hgeneral⟩ :=
        exists_layout_generalFraction (signBit x) hn hd (show 0 < 6 by decide)
      have hexact : 0 < |oriented (signBit x) ((n : ℚ) / d)| := by
        rw [abs_oriented]
        positivity
      rw [← htext]
      exact ⟨_, renders_layout hNaN hInf hvalue hnegative
        (fun hq => absurd hq (abs_pos.1 hexact)) fun _ => hgeneral⟩

/-! ## Number tokens -/

/-- A number token in reverse Polish order has the number of one of the tokens, under the text
    of that number. -/
theorem exists_number_of_mem_ofTokens {ts rpn : List Token} {r : Token}
    (hrpn : Polish.ofTokens? ts = .ok rpn) (hr : r ∈ rpn) (hkind : r.kind = .number) :
    ∃ s ∈ ts, ∃ x, s.kind = .number ∧ s.value = some x ∧ r = .number (formatNumber x) x := by
  unfold Polish.ofTokens? at hrpn
  split at hrpn
  · cases hrpn
  · rename_i hlacks
    cases hrpn
    obtain ⟨s, hs, hcontribution⟩ := Polish.mem_ofTokens_iff.1 hr
    have hskind : s.kind = .number :=
      (Polish.kind_of_mem_contribution hcontribution).1.symm.trans hkind
    rw [Polish.contribution_number hskind, List.mem_singleton] at hcontribution
    cases hvalue : s.value with
    | none =>
      have hlacking : Polish.lacksValue s = true := by simp [Polish.lacksValue, hskind, hvalue]
      exact absurd (List.any_eq_true.2 ⟨s, hs, hlacking⟩) hlacks
    | some x =>
      simp only [Token.canonical, hskind, hvalue] at hcontribution
      exact ⟨s, hs, x, hskind, hvalue, hcontribution⟩

/-- **Every number that is written is a number again, to six figures.** The text of a float is
    read as a number of its kind and sign, and it shows a finite one exactly up to rounding to
    six figures. In reverse Polish order every number token has this text for its name and
    keeps the number of a token of the list; in an expression that is the number as which a
    piece of the text is read. -/
theorem numbers_read_back :
    (∀ x, ∃ n, Renders x (formatNumber x) n) ∧
      (∀ ts rpn, Polish.ofTokens? ts = .ok rpn → ∀ r ∈ rpn, r.kind = .number →
        ∃ s ∈ ts, ∃ x n, s.kind = .number ∧ s.value = some x ∧ r.value = some x ∧
          r.name = formatNumber x ∧ Renders x r.name n) ∧
      (∀ (e : Expression), ∀ r ∈ e.rpn, r.kind = .number →
        ∃ p ∈ pieces e.text, ∃ x n, readNumber p = .ok (some x) ∧ r.value = some x ∧
          r.name = formatNumber x ∧ Renders x r.name n) := by
  refine ⟨exists_renders, fun ts rpn hrpn r hr hkind => ?_, fun e r hr hkind => ?_⟩
  · obtain ⟨s, hs, x, hskind, hvalue, rfl⟩ := exists_number_of_mem_ofTokens hrpn hr hkind
    obtain ⟨n, hn⟩ := exists_renders x
    exact ⟨s, hs, x, n, hskind, hvalue, rfl, rfl, hn⟩
  · obtain ⟨s, hs, x, hskind, hvalue, rfl⟩ :=
      exists_number_of_mem_ofTokens e.ofTokens?_tokens hr hkind
    obtain ⟨p, hp, hpiece⟩ := Token.exists_piece_of_mem_ofText e.tokens_ofText hs
    obtain ⟨y, hread, hy⟩ := Token.exists_value_of_ofPiece hpiece hskind
    rw [hvalue] at hy
    cases hy
    obtain ⟨n, hn⟩ := exists_renders x
    exact ⟨p, hp, x, n, hread, rfl, rfl, hn⟩

/-- A number that is rounded into the next decade, where it is written with an exponent: as a
    token and as a formula. -/
theorem numbers_read_back_carry :
    let text : Text := ['9', '9', '9', '9', '9', '9', '.', '5']
    let x := (Numeral.decimal false 9999995 (-1)).toFloat
    let r := Token.number ['1', 'e', '+', '0', '6'] x
    (Polish.ofTokens? [.number text x] = .ok [r] ∧ r.kind = .number ∧
      ∃ y n, r.value = some y ∧ Renders y r.name n) ∧
      ∃ e : Expression, e.text = text ∧ r ∈ e.rpn ∧
        ∃ p ∈ pieces e.text, ∃ y n, readNumber p = .ok (some y) ∧ r.value = some y ∧
          r.name = formatNumber y ∧ Renders y r.name n := by
  intro text x r
  have hname : formatNumber x = r.name := by decide +kernel
  have hrpn : Polish.ofTokens? [.number text x] = .ok [r] := by
    show Except.ok [Token.number (formatNumber x) x] = .ok [r]
    rw [hname]
    rfl
  have htokens : Token.ofText [] text = .ok [.number text x] := rfl
  let e : Expression := ⟨[], text, [.number text x], htokens⟩
  have hmem : r ∈ e.rpn := by
    rw [Except.ok.inj (e.ofTokens?_tokens.symm.trans hrpn)]
    exact List.mem_singleton.2 rfl
  obtain ⟨-, htokens, hexpressions⟩ := numbers_read_back
  obtain ⟨s, -, y, n, -, -, hvalue, -, hrenders⟩ :=
    htokens _ _ hrpn r (List.mem_singleton.2 rfl) rfl
  exact ⟨⟨hrpn, rfl, y, n, hvalue, hrenders⟩, e, rfl, hmem, hexpressions e r hmem rfl⟩

end Formula
