/-
  Formula.Proofs.Polish.Conservation

  Reverse Polish order loses, duplicates and invents no token.

    * `Token.canonical t` — the token `t` as the output has it: a number token is named by the
      general notation of its number and keeps the number, every other token is as it was.
    * `contribution t` — what the token `t` adds to the output, now or later: a parenthesis
      nothing, any other token itself in this form.

  `step_perm` says that one token moves what is sent and what is pending by its own
  contribution; `convert_perm` follows by induction for a whole list, and
  `mem_ofTokens_iff` says which tokens the output has.
-/
import Formula.Polish

namespace Formula

/-- A token as the output has it. Only a number token changes: it is named by the general
    notation of its number. -/
def Token.canonical (t : Token) : Token :=
  match t.kind, t.value with
  | .number, some x => .number (formatNumber x) x
  | _, _ => t

namespace Token

variable {t : Token}

theorem canonical_of_kind_ne (h : t.kind ≠ .number) : t.canonical = t := by
  unfold canonical
  split
  · rename_i hkind _
    exact absurd hkind h
  · rfl

/-- What the converter writes for a number token is its canonical form. -/
theorem rendered_eq_canonical (h : t.kind = .number) : t.rendered = t.canonical := by
  cases hvalue : t.value <;> simp only [rendered, canonical, h, hvalue]

@[simp] theorem kind_canonical (t : Token) : t.canonical.kind = t.kind := by
  unfold canonical
  split
  · rename_i hkind _
    exact hkind.symm
  · rfl

/-- The number of a token does not depend on how it is written. -/
@[simp] theorem value_canonical (t : Token) : t.canonical.value = t.value := by
  unfold canonical
  split
  · rename_i hvalue
    exact hvalue.symm
  · rfl

end Token

namespace Polish

/-- What a token adds to the output. -/
def contribution (t : Token) : List Token :=
  match t.kind with
  | .number => [t.canonical]
  | .leftParen | .rightParen => []
  | .operator | .function | .reference => [t]

variable {stack ts : List Token} {s t : Token}

/-! ## Contributions -/

theorem contribution_number (h : t.kind = .number) : contribution t = [t.canonical] := by
  simp only [contribution, h]

theorem contribution_parenthesis (h : t.kind = .leftParen ∨ t.kind = .rightParen) :
    contribution t = [] := by
  rcases h with h | h
  · simp only [contribution, h]
  · simp only [contribution, h]

theorem contribution_self (hnumber : t.kind ≠ .number) (hleft : t.kind ≠ .leftParen)
    (hright : t.kind ≠ .rightParen) : contribution t = [t] := by
  cases hkind : t.kind with
  | number => exact absurd hkind hnumber
  | leftParen => exact absurd hkind hleft
  | rightParen => exact absurd hkind hright
  | operator => simp only [contribution, hkind]
  | function => simp only [contribution, hkind]
  | reference => simp only [contribution, hkind]

/-- A contribution is of the kind of its token, and no parenthesis. -/
theorem kind_of_mem_contribution (h : s ∈ contribution t) :
    s.kind = t.kind ∧ s.kind ≠ .leftParen ∧ s.kind ≠ .rightParen := by
  cases hkind : t.kind with
  | number =>
    rw [contribution_number hkind, List.mem_singleton] at h
    rw [h, Token.kind_canonical, hkind]
    decide
  | leftParen =>
    rw [contribution_parenthesis (.inl hkind)] at h
    cases h
  | rightParen =>
    rw [contribution_parenthesis (.inr hkind)] at h
    cases h
  | _ =>
    simp only [contribution, hkind, List.mem_singleton] at h
    rw [h, hkind]
    decide

/-! ## One token -/

theorem isInside_of_releases (h : releases t s = true) : isInside s = true := by
  rw [isInside_eq_true_iff]
  intro hkind
  rw [releases_leftParen t hkind] at h
  cases h

/-- A completed function and the stack under it are the stack, parentheses aside. -/
theorem filter_completed (stack : List Token) :
    (completed stack).1 ++ (completed stack).2.filter isInside = stack.filter isInside := by
  cases stack with
  | nil => rfl
  | cons f stack =>
    by_cases hf : f.kind = .function
    · have hinside : isInside f = true := by
        rw [isInside_eq_true_iff, hf]
        decide
      rw [completed, if_pos hf, List.filter_cons_of_pos hinside, List.singleton_append]
    · rw [completed, if_neg hf, List.nil_append]

theorem filter_tail_dropWhile (stack : List Token) :
    (stack.dropWhile isInside).tail.filter isInside =
      (stack.dropWhile isInside).filter isInside := by
  cases hdrop : stack.dropWhile isInside with
  | nil => rfl
  | cons l rest =>
    have hl : ¬ isInside l = true := by
      have hhead := List.head?_dropWhile_not isInside stack
      rw [hdrop] at hhead
      simpa using hhead
    rw [List.tail_cons, List.filter_cons_of_neg hl]

theorem filter_takeWhile {p : Token → Bool} (hp : ∀ s, p s = true → isInside s = true)
    (stack : List Token) : (stack.takeWhile p).filter isInside = stack.takeWhile p :=
  List.filter_eq_self.2 fun s hs => hp s (List.all_eq_true.1 List.all_takeWhile s hs)

/-- One token moves what is sent and what is pending by its contribution. -/
theorem step_perm (stack : List Token) (t : Token) :
    ((step stack t).1 ++ (step stack t).2.filter isInside).Perm
      (contribution t ++ stack.filter isInside) := by
  cases hkind : t.kind with
  | number =>
    rw [step_number _ hkind, contribution_number hkind, Token.rendered_eq_canonical hkind]
  | reference =>
    rw [step_reference _ hkind, contribution, hkind]
  | function =>
    have hinside : isInside t = true := by rw [isInside_eq_true_iff, hkind]; decide
    rw [step_function _ hkind, contribution, hkind, List.filter_cons_of_pos hinside]
    exact .refl _
  | leftParen =>
    have hinside : ¬ isInside t = true := by simp [isInside, hkind]
    rw [step_leftParen _ hkind, contribution, hkind, List.filter_cons_of_neg hinside]
  | operator =>
    have hinside : isInside t = true := by rw [isInside_eq_true_iff, hkind]; decide
    -- What is released is no parenthesis, so the filter leaves it alone.
    have hsplit : stack.filter isInside =
        stack.takeWhile (releases t) ++ (stack.dropWhile (releases t)).filter isInside := by
      rw [← filter_takeWhile (fun s => isInside_of_releases) stack, ← List.filter_append,
        List.takeWhile_append_dropWhile]
    rw [step_operator _ hkind, contribution, hkind, List.filter_cons_of_pos hinside, hsplit]
    exact List.perm_middle
  | rightParen =>
    -- Of what is below the opening parenthesis, only the completed function is sent.
    have hsplit : stack.filter isInside =
        stack.takeWhile isInside ++ (stack.dropWhile isInside).filter isInside := by
      rw [← filter_takeWhile (fun s hs => hs) stack, ← List.filter_append,
        List.takeWhile_append_dropWhile]
    rw [step_rightParen _ hkind, contribution, hkind, hsplit, List.append_assoc,
      filter_completed, filter_tail_dropWhile]
    exact .refl _

/-! ## Whole lists -/

/-- The output has the contributions of all tokens and what was pending before them. -/
theorem convert_perm (stack ts : List Token) :
    (convert stack ts).Perm (ts.flatMap contribution ++ stack.filter isInside) := by
  induction ts generalizing stack with
  | nil => exact .refl _
  | cons t ts ih =>
    rw [convert_cons, List.flatMap_cons]
    have hrest := (ih (step stack t).2).append_left (step stack t).1
    -- What the first token sends moves behind the contributions of the rest, next to what
    -- it leaves pending; there `step_perm` applies.
    have hcomm : ((step stack t).1 ++ (ts.flatMap contribution ++
        (step stack t).2.filter isInside)).Perm
        (ts.flatMap contribution ++ ((step stack t).1 ++ (step stack t).2.filter isInside)) := by
      rw [← List.append_assoc, ← List.append_assoc]
      exact List.perm_append_comm.append_right _
    have hstep := (step_perm stack t).append_left (ts.flatMap contribution)
    have hfront : (ts.flatMap contribution ++ (contribution t ++ stack.filter isInside)).Perm
        (contribution t ++ ts.flatMap contribution ++ stack.filter isInside) := by
      rw [← List.append_assoc]
      exact List.perm_append_comm.append_right _
    exact hrest.trans (hcomm.trans (hstep.trans hfront))

/-- The tokens in reverse Polish order are the contributions of the tokens. -/
theorem mem_ofTokens_iff : s ∈ ofTokens ts ↔ ∃ t ∈ ts, s ∈ contribution t := by
  rw [ofTokens, (convert_perm [] ts).mem_iff, List.filter_nil, List.append_nil,
    List.mem_flatMap]

end Polish

end Formula
