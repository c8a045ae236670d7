/-
  Formula.Text.Basic

  Text as a list of characters, so that definitions on it recurse on the
  characters themselves, and the blank characters, which carry no meaning in a
  formula:

    * `isBlank c` — `c` is white space in the sense of the character standard:
      a space separator, a line or paragraph separator, or one of the control
      characters that separate lines, pages, files, groups, records and units.
    * `withoutBlanks t` — `t` with every blank removed.
    * `spaced ts` — the texts of `ts` with one space between neighbours.

  `withoutBlanks_append`, `withoutBlanks_spaced` and `withoutBlanks_idem` are what other
  modules use.
-/

namespace Formula

/-- A text is the list of its characters. -/
abbrev Text := List Char

/-- Code points of the blank characters, in increasing order; each pair is the
    first and the last of a run. -/
def blankRuns : List (Nat × Nat) :=
  [(0x09, 0x0D), (0x1C, 0x20), (0x85, 0x85), (0xA0, 0xA0), (0x1680, 0x1680),
   (0x2000, 0x200A), (0x2028, 0x2029), (0x202F, 0x202F), (0x205F, 0x205F),
   (0x3000, 0x3000)]

def isBlank (c : Char) : Bool :=
  blankRuns.any fun run => run.1 ≤ c.toNat && c.toNat ≤ run.2

def withoutBlanks (t : Text) : Text :=
  t.filter fun c => !isBlank c

def spaced (ts : List Text) : Text :=
  List.intercalate [' '] ts

/-! ## Removing blanks -/

@[simp] theorem withoutBlanks_nil : withoutBlanks [] = [] := rfl

@[simp] theorem withoutBlanks_append (s t : Text) :
    withoutBlanks (s ++ t) = withoutBlanks s ++ withoutBlanks t :=
  List.filter_append ..

theorem withoutBlanks_cons_of_isBlank {c : Char} (h : isBlank c = true) (t : Text) :
    withoutBlanks (c :: t) = withoutBlanks t :=
  List.filter_cons_of_neg (by simp [h])

theorem withoutBlanks_cons_of_not_isBlank {c : Char} (h : isBlank c = false) (t : Text) :
    withoutBlanks (c :: t) = c :: withoutBlanks t :=
  List.filter_cons_of_pos (by simp [h])

/-- The spaces between texts are removed with their other blanks. -/
theorem withoutBlanks_spaced (ts : List Text) :
    withoutBlanks (spaced ts) = withoutBlanks ts.flatten := by
  induction ts with
  | nil => rfl
  | cons s ts ih =>
    cases ts with
    | nil => rw [spaced, List.intercalate_singleton, List.flatten_singleton]
    | cons t ts =>
      rw [spaced, List.intercalate_cons_cons, ← spaced, List.append_assoc, List.singleton_append,
        withoutBlanks_append, withoutBlanks_cons_of_isBlank (by decide), ih,
        ← withoutBlanks_append, ← List.flatten_cons]

/-- What is left holds no blank. -/
theorem not_isBlank_of_mem_withoutBlanks {t : Text} {c : Char}
    (h : c ∈ withoutBlanks t) : isBlank c = false := by
  simpa using (List.mem_filter.1 h).2

/-- A text without blanks is left alone. -/
theorem withoutBlanks_eq_self {t : Text} (h : ∀ c ∈ t, isBlank c = false) :
    withoutBlanks t = t :=
  List.filter_eq_self.2 fun c hc => by simp [h c hc]

/-- Removing blanks a second time changes nothing. -/
@[simp] theorem withoutBlanks_idem (t : Text) :
    withoutBlanks (withoutBlanks t) = withoutBlanks t :=
  withoutBlanks_eq_self fun _ => not_isBlank_of_mem_withoutBlanks

end Formula
