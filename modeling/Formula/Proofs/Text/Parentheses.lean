/-
  Formula.Proofs.Text.Parentheses

  Three ways to say that the parentheses of a text match.

    * `isBalanced t` — the check of the library.
    * `openCount 0 t = 0` — as many parentheses are closed as were opened. The count stops
      once it is below zero, so a text that closes too much never gets back to zero.
    * `Matching (parentheses t)` — the parentheses of `t`, all else left out, are a word of the
      grammar of matching parentheses.

      word ::= empty | ( word ) word

  `isBalancedFrom_iff_openCount` and `isBalanced_iff_matching` say that the three agree. The
  invariant for the grammar is `Closes opened t`: a word for each of the parentheses that
  are open before `t`, with the closing parenthesis behind it, and one more word.
-/
import Formula.Text.Pieces

namespace Formula

/-- The words of matching parentheses. -/
inductive Matching : Text → Prop where
  | nil : Matching []
  | group {s t : Text} : Matching s → Matching t → Matching ('(' :: (s ++ ')' :: t))

/-- The parentheses of a text. -/
def parentheses (t : Text) : Text :=
  t.filter fun c => c = '(' || c = ')'

theorem parentheses_append (s t : Text) :
    parentheses (s ++ t) = parentheses s ++ parentheses t :=
  List.filter_append ..

/-- How many parentheses are open after a text, `count` being open before it; less than zero
    from the first one on that closes none. -/
def openCount : (count : Int) → Text → Int
  | count, [] => count
  | count, c :: rest =>
    if count < 0 then count
    else if c = '(' then openCount (count + 1) rest
    else if c = ')' then openCount (count - 1) rest
    else openCount count rest

/-! ## The count -/

/-- A count below zero stays as it is. -/
theorem openCount_of_neg {count : Int} (h : count < 0) (t : Text) : openCount count t = count := by
  cases t with
  | nil => rfl
  | cons c rest => rw [openCount, if_pos h]

/-- Below zero there is no way back, so a count of zero is the same as a balance. -/
theorem isBalancedFrom_iff_openCount (opened : Nat) (t : Text) :
    isBalancedFrom opened t = true ↔ openCount opened t = 0 := by
  induction t generalizing opened with
  | nil => simp [openCount]
  | cons c rest ih =>
    have hnonneg : ¬ (opened : Int) < 0 := by omega
    rw [openCount, if_neg hnonneg]
    by_cases hopen : c = '('
    · rw [hopen, if_pos rfl, isBalancedFrom_open, ih]
      rfl
    · by_cases hclose : c = ')'
      · rw [hclose, if_neg (by decide), if_pos rfl]
        cases opened with
        | zero =>
          -- One parenthesis too many is closed: neither side recovers.
          rw [openCount_of_neg (by decide)]
          simp [isBalancedFrom]
        | succ opened =>
          have hpred : ((opened + 1 : Nat) : Int) - 1 = opened := by omega
          rw [isBalancedFrom_close, hpred, ih]
      · rw [if_neg hopen, if_neg hclose, isBalancedFrom_cons hopen hclose, ih]

/-! ## The grammar -/

/-- Only the parentheses of a text matter for its balance. -/
theorem isBalancedFrom_parentheses (opened : Nat) (t : Text) :
    isBalancedFrom opened (parentheses t) = isBalancedFrom opened t := by
  induction t generalizing opened with
  | nil => rfl
  | cons c rest ih =>
    by_cases hopen : c = '('
    · subst hopen
      exact ih (opened + 1)
    · by_cases hclose : c = ')'
      · subst hclose
        cases opened with
        | zero => rfl
        | succ opened => exact ih opened
      · have hskip : parentheses (c :: rest) = parentheses rest :=
          List.filter_cons_of_neg (by simp [hopen, hclose])
        rw [hskip, isBalancedFrom_cons hopen hclose, ih]

/-- A word does not change what is open. -/
theorem Matching.isBalancedFrom_append {s : Text} (h : Matching s) (opened : Nat) (t : Text) :
    isBalancedFrom opened (s ++ t) = isBalancedFrom opened t := by
  induction h generalizing opened t with
  | nil => rfl
  | group _ _ ihs iht =>
    rw [List.cons_append, isBalancedFrom_open, List.append_assoc, ihs, List.cons_append,
      isBalancedFrom_close, iht]

/-- A text that closes `opened` parentheses: a word before each of the closing ones, and a word
    behind the last. -/
inductive Closes : (opened : Nat) → Text → Prop where
  | done {t : Text} : Matching t → Closes 0 t
  | close {opened : Nat} {s t : Text} :
      Matching s → Closes opened t → Closes (opened + 1) (s ++ ')' :: t)

/-- An opening parenthesis in front is closed by the first of the closing ones. -/
theorem Closes.opening {opened : Nat} {t : Text} (h : Closes (opened + 1) t) :
    Closes opened ('(' :: t) := by
  cases h with
  | close hs hrest =>
    cases hrest with
    | done ht => exact .done (.group hs ht)
    | @close opened s' t' hs' ht' =>
      -- The group is the front of the word that is closed next.
      have hword := Closes.close (.group hs hs') ht'
      rw [List.cons_append, List.append_assoc, List.cons_append] at hword
      exact hword

/-- A balanced text of parentheses closes what is open before it. -/
theorem closes_of_isBalancedFrom {t : Text} (ht : ∀ c ∈ t, c = '(' ∨ c = ')') {opened : Nat}
    (h : isBalancedFrom opened t = true) : Closes opened t := by
  induction t generalizing opened with
  | nil =>
    obtain rfl : opened = 0 := by simpa using h
    exact .done .nil
  | cons c rest ih =>
    obtain ⟨hc, hrest⟩ := List.forall_mem_cons.1 ht
    rcases hc with rfl | rfl
    · rw [isBalancedFrom_open] at h
      exact (ih hrest h).opening
    · cases opened with
      | zero => cases h
      | succ opened =>
        rw [isBalancedFrom_close] at h
        exact .close .nil (ih hrest h)

theorem isBalanced_iff_matching (t : Text) :
    isBalanced t = true ↔ Matching (parentheses t) := by
  have hmem : ∀ c ∈ parentheses t, c = '(' ∨ c = ')' := by
    intro c hc
    simpa using (List.mem_filter.1 hc).2
  rw [isBalanced, ← isBalancedFrom_parentheses]
  constructor
  · intro h
    cases closes_of_isBalancedFrom hmem h with
    | done hword => exact hword
  · intro h
    have hword := h.isBalancedFrom_append 0 []
    rw [List.append_nil] at hword
    rw [hword]
    rfl

end Formula
