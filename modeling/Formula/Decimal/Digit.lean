/-
  Formula.Decimal.Digit

  Decimal digits of every script. A script writes its digits in ten consecutive
  code points, zero first, so the table holds the zeros only.

    * `decimalDigit? c` — the value of `c` as a decimal digit, if it is one.
    * `digitRun t` — the values of the digits that `t` begins with, and the rest.
    * `digitsValue ds` — the number that the digits `ds` write.
-/
import Formula.Text.Basic

namespace Formula

/-- Code points of the digit zero in every script that has decimal digits. -/
def digitZeros : List Nat :=
  [0x30, 0x660, 0x6F0, 0x7C0, 0x966, 0x9E6, 0xA66, 0xAE6, 0xB66, 0xBE6, 0xC66, 0xCE6, 0xD66,
   0xDE6, 0xE50, 0xED0, 0xF20, 0x1040, 0x1090, 0x17E0, 0x1810, 0x1946, 0x19D0, 0x1A80,
   0x1A90, 0x1B50, 0x1BB0, 0x1C40, 0x1C50, 0xA620, 0xA8D0, 0xA900, 0xA9D0, 0xA9F0, 0xAA50,
   0xABF0, 0xFF10, 0x104A0, 0x10D30, 0x11066, 0x110F0, 0x11136, 0x111D0, 0x112F0, 0x11450,
   0x114D0, 0x11650, 0x116C0, 0x11730, 0x118E0, 0x11950, 0x11C50, 0x11D50, 0x11DA0, 0x16A60,
   0x16AC0, 0x16B50, 0x1D7CE, 0x1D7D8, 0x1D7E2, 0x1D7EC, 0x1D7F6, 0x1E140, 0x1E2F0, 0x1E950,
   0x1FBF0]

/-- The value of a character as a decimal digit. -/
def decimalDigit? (c : Char) : Option Nat :=
  (digitZeros.find? fun first => first ≤ c.toNat && c.toNat < first + 10).map (c.toNat - ·)

/-- The values of the digits at the front of a text, and the text behind them. -/
def digitRun : Text → List Nat × Text
  | [] => ([], [])
  | c :: rest =>
    match decimalDigit? c with
    | some d =>
      let run := digitRun rest
      (d :: run.1, run.2)
    | none => ([], c :: rest)

/-- The number that a list of digits writes, most significant digit first. -/
def digitsValue (ds : List Nat) : Nat :=
  ds.foldl (fun n d => 10 * n + d) 0

/-! ## Single digits -/

/-- A digit is one of the ten characters of a script, counted from its zero. -/
theorem exists_zero_of_decimalDigit? {c : Char} {d : Nat} (h : decimalDigit? c = some d) :
    ∃ first ∈ digitZeros, first ≤ c.toNat ∧ c.toNat < first + 10 ∧ c.toNat - first = d := by
  obtain ⟨first, hfind, hd⟩ := Option.map_eq_some_iff.1 h
  have hrange := List.find?_some hfind
  simp only [Bool.and_eq_true, decide_eq_true_eq] at hrange
  exact ⟨first, List.mem_of_find?_eq_some hfind, hrange.1, hrange.2, hd⟩

theorem decimalDigit?_lt_ten {c : Char} {d : Nat} (h : decimalDigit? c = some d) : d < 10 := by
  obtain ⟨first, -, hlow, hhigh, hd⟩ := exists_zero_of_decimalDigit? h
  omega

/-- The figure that writes a digit is read back as that digit. -/
theorem decimalDigit?_digitChar {d : Nat} (h : d < 10) :
    decimalDigit? (Nat.digitChar d) = some d := by
  have : ∀ d : Fin 10, decimalDigit? (Nat.digitChar d) = some d.val := by decide
  exact this ⟨d, h⟩

end Formula
