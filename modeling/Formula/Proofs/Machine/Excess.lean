/-
  Formula.Proofs.Machine.Excess

  A closed form of the number of values that a list in reverse Polish order leaves.

    * `excess ts` — the operands of `ts` less its binary operators.
    * `peak ts` — the greatest excess of a part at the end of `ts`, the empty one included.
    * `Token.isIdle t` — `t` does nothing where there is no value: it is no operand and no
      function.

  Behind the first operand there is always a value, since an operator that would take the
  last one is skipped. From there on the count is a walk that goes up by one at an operand
  and down by one at a binary operator, but never below one. Its end is not the excess of
  all that follows: what was skipped is made up for by the part behind it, so that the part
  with the greatest excess decides (`Depth.from?_of_pos`).
-/
import Mathlib.Data.List.Infix
import Mathlib.Order.Bounds.Basic
import Formula.Proofs.Machine.Depth
import Formula.Proofs.Polish.Order

namespace Formula

namespace Token

/-- Whether a token is an operator between two operands. -/
def isBinary (t : Token) : Bool :=
  match t.operator? with
  | some (.binary _) => true
  | _ => false

/-- Whether a token has no effect where there is no value. -/
def isIdle (t : Token) : Bool :=
  !t.isOperand && t.kind != .function

/-- What a token adds to the count of values if it finds all that it takes. -/
def weight (t : Token) : Int :=
  if t.isOperand then 1 else if t.isBinary then -1 else 0

end Token

/-- The operands of a token list less its binary operators. -/
def excess (ts : List Token) : Int :=
  ts.countP Token.isOperand - ts.countP Token.isBinary

/-- The greatest excess of a part at the end of a token list. -/
def peak : List Token → Int
  | [] => 0
  | t :: ts => max (excess (t :: ts)) (peak ts)

variable {t o f : Token} {ts before after : List Token} {depth n : Int}

/-! ## Excess -/

theorem Token.isBinary_of_kind (h : t.kind ≠ .operator) : t.isBinary = false := by
  rw [isBinary, operator?, if_neg h]

theorem Token.isBinary_of_isOperand (h : t.isOperand = true) : t.isBinary = false := by
  apply isBinary_of_kind
  intro hkind
  rw [isOperand, hkind] at h
  cases h

/-- An operator that has the arity of the table takes two operands if it is a binary one
    and one if it is not. -/
theorem Token.HasTableArity.arity_eq (ht : t.HasTableArity) (h : t.kind = .operator) :
    t.arity = if t.isBinary then 2 else 1 := by
  obtain ⟨op, hname, harity⟩ := ht.operator h
  have hop : t.operator? = some op := by
    rw [operator?, if_pos h, hname, Operator.ofName?_name]
  rw [harity, isBinary, hop]
  cases op <;> rfl

theorem excess_cons (t : Token) (ts : List Token) : excess (t :: ts) = t.weight + excess ts := by
  unfold excess Token.weight
  rw [List.countP_cons, List.countP_cons]
  by_cases hoperand : t.isOperand = true
  · rw [Token.isBinary_of_isOperand hoperand, hoperand]
    simp only [if_true, Bool.false_eq_true, if_false]
    omega
  · rw [if_neg hoperand, if_neg hoperand]
    split <;> omega

theorem excess_le_peak (ts : List Token) : excess ts ≤ peak ts := by
  cases ts with
  | nil => exact Int.le_refl 0
  | cons t ts => exact Int.le_max_left _ _

/-- The empty part at the end has excess zero. -/
theorem peak_nonneg (ts : List Token) : 0 ≤ peak ts := by
  induction ts with
  | nil => exact Int.le_refl 0
  | cons t ts ih => exact Int.le_trans ih (Int.le_max_right _ _)

theorem isGreatest_peak (ts : List Token) :
    IsGreatest {m | ∃ s, s <:+ ts ∧ excess s = m} (peak ts) := by
  induction ts with
  | nil =>
    refine ⟨⟨[], List.suffix_refl [], rfl⟩, ?_⟩
    rintro m ⟨s, hs, rfl⟩
    obtain rfl := List.suffix_nil.1 hs
    exact Int.le_refl 0
  | cons t ts ih =>
    obtain ⟨⟨s, hs, hpeak⟩, hupper⟩ := ih
    refine ⟨?_, ?_⟩
    · -- The greater of the two is the excess of the whole or of a part at the end of the rest.
      rcases Int.le_total (excess (t :: ts)) (peak ts) with hle | hle
      · refine ⟨s, hs.trans (List.suffix_cons t ts), ?_⟩
        rw [peak, Int.max_eq_right hle, hpeak]
      · refine ⟨t :: ts, List.suffix_refl _, ?_⟩
        rw [peak, Int.max_eq_left hle]
    · rintro m ⟨s, hs, rfl⟩
      rcases List.suffix_cons_iff.1 hs with rfl | hs
      · exact Int.le_max_left _ _
      · exact Int.le_trans (hupper ⟨s, hs, rfl⟩) (Int.le_max_right _ _)

/-! ## Behind the first operand -/

theorem Depth.step_operand (h : t.isOperand = true) (depth : Int) :
    Depth.step depth t = some (depth + 1) := by
  have hkind : t.kind = .number ∨ t.kind = .reference := by simpa [Token.isOperand] using h
  rcases hkind with hkind | hkind
  · simp only [Depth.step, hkind]
  · simp only [Depth.step, hkind]

/-- Where there is a value, a token moves the count by its weight, but never below one. -/
theorem Depth.step_of_pos (ht : t.HasTableArity) (hpos : 1 ≤ depth) :
    Depth.step depth t = some (max 1 (depth + t.weight)) := by
  by_cases hoperand : t.isOperand = true
  · rw [Depth.step_operand hoperand, Token.weight, if_pos hoperand]
    congr 1
    omega
  · rw [Token.weight, if_neg hoperand]
    by_cases hoperator : t.kind = .operator
    · have harity := ht.arity_eq hoperator
      simp only [Depth.step, hoperator]
      congr 1
      -- A binary operator is skipped where the count is one, negation nowhere.
      cases hbinary : t.isBinary with
      | true =>
        rw [hbinary, if_pos rfl] at harity
        rw [harity, if_pos rfl]
        split <;> omega
      | false =>
        rw [hbinary, if_neg (by decide)] at harity
        rw [harity, if_pos hpos, if_neg (by decide)]
        omega
    · have hstay : Depth.step depth t = some depth := by
        have hnot : ¬ depth < 1 := by omega
        cases hkind : t.kind with
        | number => exact absurd (by rw [Token.isOperand, hkind]; rfl) hoperand
        | reference => exact absurd (by rw [Token.isOperand, hkind]; rfl) hoperand
        | operator => exact absurd hkind hoperator
        | function => simp only [Depth.step, hkind, if_neg hnot]
        | leftParen => simp only [Depth.step, hkind]
        | rightParen => simp only [Depth.step, hkind]
      rw [hstay, Token.isBinary_of_kind hoperator, if_neg (by decide)]
      congr 1
      omega

/-- From a count of at least one, the count at the end is what is left of it by all of the
    list, or one and the greatest excess of a part at the end, whichever is more. -/
theorem Depth.from?_of_pos (hts : ∀ t ∈ ts, t.HasTableArity) (hpos : 1 ≤ depth) :
    Depth.from? depth ts = some (max (depth + excess ts) (1 + peak ts)) := by
  induction ts generalizing depth with
  | nil =>
    rw [Depth.from?_nil]
    show some depth = some (max (depth + 0) (1 + 0))
    congr 1
    omega
  | cons t ts ih =>
    obtain ⟨ht, hts⟩ := List.forall_mem_cons.1 hts
    have hnext : 1 ≤ max 1 (depth + t.weight) := Int.le_max_left _ _
    rw [Depth.from?_cons, Depth.step_of_pos ht hpos, Option.bind_some, ih hts hnext, peak,
      excess_cons]
    congr 1
    have hle := excess_le_peak ts
    omega

theorem Depth.from?_one (hts : ∀ t ∈ ts, t.HasTableArity) :
    Depth.from? 1 ts = some (1 + peak ts) := by
  rw [Depth.from?_of_pos hts (Int.le_refl 1)]
  congr 1
  have hle := excess_le_peak ts
  omega

/-! ## Up to the first operand -/

theorem Token.isIdle_iff : t.isIdle = true ↔ t.isOperand = false ∧ t.kind ≠ .function := by
  simp [isIdle]

/-- Where there is no value, a function ends the count and no other token but an operand
    moves it: every operator takes a value. -/
theorem Depth.step_zero (ht : t.HasTableArity) (h : t.isOperand = false) :
    Depth.step 0 t = if t.kind = .function then none else some 0 := by
  cases hkind : t.kind with
  | number => rw [Token.isOperand, hkind] at h; cases h
  | reference => rw [Token.isOperand, hkind] at h; cases h
  | leftParen => simp only [Depth.step, hkind]; rfl
  | rightParen => simp only [Depth.step, hkind]; rfl
  | function => simp only [Depth.step, hkind]; rfl
  | operator =>
    have harity := ht.arity_eq hkind
    have hshort : ¬ t.arity ≤ 0 := by
      rw [harity]
      split <;> decide
    simp only [Depth.step, hkind, if_neg hshort]
    rfl

/-- Idle tokens leave the count at zero. -/
theorem Depth.from?_idle (hts : ∀ t ∈ ts, t.HasTableArity) (h : ∀ t ∈ ts, t.isIdle = true) :
    Depth.from? 0 ts = some 0 := by
  induction ts with
  | nil => rfl
  | cons t ts ih =>
    obtain ⟨ht, hts⟩ := List.forall_mem_cons.1 hts
    obtain ⟨hidle, h⟩ := List.forall_mem_cons.1 h
    obtain ⟨hoperand, hkind⟩ := Token.isIdle_iff.1 hidle
    rw [Depth.from?_cons, Depth.step_zero ht hoperand, if_neg hkind]
    exact ih hts h

/-- A function before the first operand ends the count. -/
theorem depth?_of_function (hts : ∀ t ∈ before ++ f :: after, t.HasTableArity)
    (hbefore : ∀ t ∈ before, t.isOperand = false) (hf : f.kind = .function) :
    depth? (before ++ f :: after) = none := by
  unfold depth?
  induction before with
  | nil =>
    rw [List.nil_append, Depth.from?_cons]
    simp only [Depth.step, hf]
    rfl
  | cons t before ih =>
    obtain ⟨ht, hts⟩ := List.forall_mem_cons.1 hts
    obtain ⟨hoperand, hbefore⟩ := List.forall_mem_cons.1 hbefore
    rw [List.cons_append, Depth.from?_cons, Depth.step_zero ht hoperand]
    -- The first function decides, be it `f` or one before it.
    split
    · rfl
    · exact ih hts hbefore

/-- The count of a list in which no function stands before the first operand. -/
theorem depth?_of_isOperand (hts : ∀ t ∈ before ++ o :: after, t.HasTableArity)
    (hbefore : ∀ t ∈ before, t.isIdle = true) (ho : o.isOperand = true) :
    depth? (before ++ o :: after) = some (1 + peak after) := by
  have hafter : ∀ t ∈ after, t.HasTableArity := fun t ht =>
    hts t (List.mem_append_right before (List.mem_cons_of_mem o ht))
  have hidle : Depth.from? 0 before = some 0 :=
    Depth.from?_idle (fun t ht => hts t (List.mem_append_left _ ht)) hbefore
  rw [depth?, Depth.from?_append, hidle, Option.bind_some, Depth.from?_cons,
    Depth.step_operand ho, Option.bind_some]
  exact Depth.from?_one hafter

/-- The three shapes of a list: all its tokens are idle, or the first one that is not is a
    function, or it is an operand. -/
theorem idle_or_function_or_operand (ts : List Token) :
    (∀ t ∈ ts, t.isIdle = true) ∨
      ∃ before t after, ts = before ++ t :: after ∧ (∀ s ∈ before, s.isIdle = true) ∧
        (t.kind = .function ∨ t.isOperand = true) := by
  cases hfind : ts.find? fun t => !t.isIdle with
  | none =>
    left
    intro t ht
    simpa using List.find?_eq_none.1 hfind t ht
  | some t =>
    right
    obtain ⟨hbusy, before, after, hts, hbefore⟩ := List.find?_eq_some_iff_append.1 hfind
    refine ⟨before, t, after, hts, fun s hs => by simpa using hbefore s hs, ?_⟩
    by_cases hkind : t.kind = .function
    · exact .inl hkind
    · right
      simpa [Token.isIdle, hkind] using hbusy

/-! ## The closed form -/

/-- The count of a list of each shape. -/
theorem depth?_cases (hts : ∀ t ∈ ts, t.HasTableArity) :
    ((∀ t ∈ ts, t.isIdle = true) ∧ depth? ts = some 0) ∨
      (∃ before f after, ts = before ++ f :: after ∧ (∀ t ∈ before, t.isIdle = true) ∧
        f.kind = .function ∧ depth? ts = none) ∨
      ∃ before o after, ts = before ++ o :: after ∧ (∀ t ∈ before, t.isIdle = true) ∧
        o.isOperand = true ∧ depth? ts = some (1 + peak after) := by
  rcases idle_or_function_or_operand ts with hidle | ⟨before, t, after, rfl, hbefore, ht | ht⟩
  · exact .inl ⟨hidle, Depth.from?_idle hts hidle⟩
  · have hplain : ∀ s ∈ before, s.isOperand = false := fun s hs =>
      (Token.isIdle_iff.1 (hbefore s hs)).1
    exact .inr (.inl ⟨before, t, after, rfl, hbefore, ht, depth?_of_function hts hplain ht⟩)
  · exact .inr (.inr ⟨before, t, after, rfl, hbefore, ht, depth?_of_isOperand hts hbefore ht⟩)

theorem depth?_eq_none_iff (hts : ∀ t ∈ ts, t.HasTableArity) :
    depth? ts = none ↔ ∃ before f after, ts = before ++ f :: after ∧ f.kind = .function ∧
      ∀ t ∈ before, t.isOperand = false := by
  refine ⟨fun hnone => ?_, ?_⟩
  · rcases depth?_cases hts with ⟨-, hzero⟩ | ⟨before, f, after, hsplit, hbefore, hf, -⟩ |
      ⟨before, o, after, -, -, -, hsome⟩
    · cases hzero.symm.trans hnone
    · exact ⟨before, f, after, hsplit, hf, fun t ht => (Token.isIdle_iff.1 (hbefore t ht)).1⟩
    · cases hsome.symm.trans hnone
  · rintro ⟨before, f, after, rfl, hf, hbefore⟩
    exact depth?_of_function hts hbefore hf

theorem depth?_eq_zero_iff (hts : ∀ t ∈ ts, t.HasTableArity) :
    depth? ts = some 0 ↔ ∀ t ∈ ts, t.isIdle = true := by
  refine ⟨fun hzero => ?_, Depth.from?_idle hts⟩
  rcases depth?_cases hts with ⟨hidle, -⟩ | ⟨before, f, after, -, -, -, hnone⟩ |
    ⟨before, o, after, -, -, -, hsome⟩
  · exact hidle
  · cases hnone.symm.trans hzero
  · have hone : 1 + peak after = 0 := Option.some.inj (hsome.symm.trans hzero)
    have hnonneg := peak_nonneg after
    omega

/-- A count other than zero is one and the greatest excess of a part at the end of what
    follows the first operand. -/
theorem depth?_eq_some_iff (hts : ∀ t ∈ ts, t.HasTableArity) (hn : n ≠ 0) :
    depth? ts = some n ↔ ∃ before o after, ts = before ++ o :: after ∧
      (∀ t ∈ before, t.isIdle = true) ∧ o.isOperand = true ∧ n = 1 + peak after := by
  refine ⟨fun hsome => ?_, ?_⟩
  · rcases depth?_cases hts with ⟨-, hzero⟩ | ⟨before, f, after, -, -, -, hnone⟩ |
      ⟨before, o, after, hsplit, hbefore, ho, hpeak⟩
    · exact absurd (Option.some.inj (hsome.symm.trans hzero)) hn
    · cases hnone.symm.trans hsome
    · exact ⟨before, o, after, hsplit, hbefore, ho, Option.some.inj (hsome.symm.trans hpeak)⟩
  · rintro ⟨before, o, after, rfl, hbefore, ho, rfl⟩
    exact depth?_of_isOperand hts hbefore ho

/-- No part at the end has a positive excess exactly if in each of them the operands do not
    outnumber the binary operators. -/
theorem peak_eq_zero_iff :
    peak ts = 0 ↔
      ∀ s, s <:+ ts → s.countP Token.isOperand ≤ s.countP Token.isBinary := by
  obtain ⟨⟨s, hs, hpeak⟩, hupper⟩ := isGreatest_peak ts
  refine ⟨fun hzero s hs => ?_, fun h => ?_⟩
  · have hle : excess s ≤ peak ts := hupper ⟨s, hs, rfl⟩
    unfold excess at hle
    omega
  · have hle := h s hs
    have hnonneg := peak_nonneg ts
    unfold excess at hpeak
    omega

/-- The count in closed form, for lists that have the arities of the table. There is none
    exactly if a function has no operand before it. It is zero exactly if there is neither an
    operand nor a function. Any other count is one and the greatest excess of operands over
    binary operators in a part at the end of what follows the first operand, no function
    standing before that. Hence a list is complete exactly if it has an operand, no function
    before the first one, and behind that no part at the end in which the operands outnumber
    the binary operators. -/
theorem depth?_closed_form {ts : List Token} (hts : ∀ t ∈ ts, t.HasTableArity) :
    (depth? ts = none ↔ ∃ before f after, ts = before ++ f :: after ∧ f.kind = .function ∧
      ∀ t ∈ before, t.isOperand = false) ∧
    (depth? ts = some 0 ↔ ∀ t ∈ ts, t.isOperand = false ∧ t.kind ≠ .function) ∧
    (∀ n : Int, n ≠ 0 → (depth? ts = some n ↔ ∃ before o after, ts = before ++ o :: after ∧
      (∀ t ∈ before, t.isOperand = false ∧ t.kind ≠ .function) ∧ o.isOperand = true ∧
        ∃ m, IsGreatest {m | ∃ s, s <:+ after ∧ excess s = m} m ∧ n = 1 + m)) ∧
    (isComplete ts = true ↔ ∃ before o after, ts = before ++ o :: after ∧
      (∀ t ∈ before, t.isOperand = false ∧ t.kind ≠ .function) ∧ o.isOperand = true ∧
        ∀ s, s <:+ after → s.countP Token.isOperand ≤ s.countP Token.isBinary) := by
  simp only [← Token.isIdle_iff]
  refine ⟨depth?_eq_none_iff hts, depth?_eq_zero_iff hts, fun n hn => ?_, ?_⟩
  · -- The greatest excess is the peak, as there is only one greatest.
    have hpeak : ∀ after, n = 1 + peak after ↔
        ∃ m, IsGreatest {m | ∃ s, s <:+ after ∧ excess s = m} m ∧ n = 1 + m := by
      refine fun after => ⟨fun h => ⟨peak after, isGreatest_peak after, h⟩, ?_⟩
      rintro ⟨m, hm, rfl⟩
      rw [hm.unique (isGreatest_peak after)]
    simp only [← hpeak]
    exact depth?_eq_some_iff hts hn
  · have hone : ∀ after, (1 = 1 + peak after) ↔ peak after = 0 := by
      intro after
      omega
    simp only [← peak_eq_zero_iff, ← hone]
    rw [isComplete, beq_iff_eq]
    exact depth?_eq_some_iff hts (by decide)

open Token in
/-- The list `+ x y + + 1` leaves two values: its first and its third addition are skipped, and
    of the parts at the end behind `x` none has a greater excess than `1` by itself. -/
theorem depth?_closed_form_skipped_operators :
    depth? [ofOperator (.binary .add), reference ['x'], reference ['y'],
      ofOperator (.binary .add), ofOperator (.binary .add), number ['1'] 1.0] = some 2 := by
  have hadd : (ofOperator (.binary .add)).HasTableArity :=
    ⟨fun _ => ⟨.binary .add, rfl, rfl⟩, nofun⟩
  have hreference : ∀ name, (reference name).HasTableArity := fun _ =>
    hasTableArity_of_kind nofun nofun
  have hnumber : (number ['1'] 1.0).HasTableArity := hasTableArity_of_kind nofun nofun
  have hts : ∀ t ∈ [ofOperator (.binary .add), reference ['x'], reference ['y'],
      ofOperator (.binary .add), ofOperator (.binary .add), number ['1'] 1.0],
      t.HasTableArity := by
    simp [hadd, hreference, hnumber]
  have hgreatest : IsGreatest {m | ∃ s, s <:+ [reference ['y'], ofOperator (.binary .add),
      ofOperator (.binary .add), number ['1'] 1.0] ∧ excess s = m} 1 := by
    refine ⟨⟨[number ['1'] 1.0], (List.mem_tails _ _).1 (by simp), rfl⟩, ?_⟩
    rintro m ⟨s, hs, rfl⟩
    have htails : ∀ s ∈ List.tails [reference ['y'], ofOperator (.binary .add),
        ofOperator (.binary .add), number ['1'] 1.0], excess s ≤ 1 := by decide
    exact htails s ((List.mem_tails s _).2 hs)
  obtain ⟨-, -, hcount, -⟩ := depth?_closed_form hts
  exact (hcount 2 (by decide)).2 ⟨[ofOperator (.binary .add)], reference ['x'], _, rfl,
    List.forall_mem_singleton.2 (by decide), rfl, 1, hgreatest, rfl⟩

end Formula
