/-
  Formula.Proofs.Traversal

  Lists whose elements are treated one by one, where each may fail.

    * `mapM_eq_ok_iff` — a list of answers is one answer for each element, in order.
    * `mapM_eq_error_iff` — a failure is that of the first element that fails.
-/
import Mathlib.Data.List.Forall2

namespace Formula

variable {α β ε : Type} {f : α → Except ε β} {x : α} {xs : List α} {y : β} {ys : List β} {e : ε}

/-- The first element is treated first. -/
theorem mapM_cons_eq (f : α → Except ε β) (x : α) (xs : List α) :
    (x :: xs).mapM f = (f x).bind fun y => (xs.mapM f).map fun ys => y :: ys := by
  rw [List.mapM_cons]
  cases f x with
  | error e => rfl
  | ok y => cases xs.mapM f <;> rfl

theorem mapM_cons_of_error (h : f x = .error e) (xs : List α) :
    (x :: xs).mapM f = .error e := by
  rw [mapM_cons_eq, h]
  rfl

theorem mapM_cons_of_ok (h : f x = .ok y) (xs : List α) :
    (x :: xs).mapM f = (xs.mapM f).map fun ys => y :: ys := by
  rw [mapM_cons_eq, h]
  rfl

theorem map_eq_ok_iff {γ : Type} {g : α → γ} {answer : Except ε α} {z : γ} :
    answer.map g = .ok z ↔ ∃ y, answer = .ok y ∧ g y = z := by
  cases answer with
  | error e => exact ⟨nofun, nofun⟩
  | ok y =>
    refine ⟨fun h => ⟨y, rfl, Except.ok.inj h⟩, ?_⟩
    rintro ⟨_, hy, rfl⟩
    cases hy
    rfl

theorem map_eq_error_iff {γ : Type} {g : α → γ} {answer : Except ε α} :
    answer.map g = .error e ↔ answer = .error e := by
  cases answer with
  | error e' => exact ⟨fun h => by cases h; rfl, fun h => by cases h; rfl⟩
  | ok y => exact ⟨nofun, nofun⟩

/-- Answers are given one by one. -/
theorem mapM_eq_ok_iff :
    xs.mapM f = .ok ys ↔ List.Forall₂ (fun x y => f x = .ok y) xs ys := by
  induction xs generalizing ys with
  | nil =>
    rw [List.forall₂_nil_left_iff]
    exact ⟨fun h => (Except.ok.inj h).symm, fun h => congrArg Except.ok h.symm⟩
  | cons x xs ih =>
    rw [List.forall₂_cons_left_iff]
    cases hx : f x with
    | error e =>
      rw [mapM_cons_of_error hx]
      exact ⟨nofun, nofun⟩
    | ok y =>
      rw [mapM_cons_of_ok hx, map_eq_ok_iff]
      simp only [ih]
      constructor
      · rintro ⟨zs, hzs, rfl⟩
        exact ⟨y, zs, rfl, hzs, rfl⟩
      · rintro ⟨_, zs, hy, hzs, rfl⟩
        cases hy
        exact ⟨zs, hzs, rfl⟩

/-- A list fails exactly if one of its elements does and those before it do not. -/
theorem mapM_eq_error_iff :
    xs.mapM f = .error e ↔
      ∃ before x after, xs = before ++ x :: after ∧ (∀ z ∈ before, ∃ y, f z = .ok y) ∧
        f x = .error e := by
  induction xs with
  | nil =>
    refine ⟨nofun, ?_⟩
    rintro ⟨before, x, after, hxs, -⟩
    exact absurd hxs.symm (List.append_ne_nil_of_right_ne_nil _ (List.cons_ne_nil x after))
  | cons x xs ih =>
    cases hx : f x with
    | error e' =>
      rw [mapM_cons_of_error hx]
      constructor
      · intro h
        cases h
        exact ⟨[], x, xs, rfl, List.forall_mem_nil _, hx⟩
      · rintro ⟨before, z, after, hxs, hbefore, hz⟩
        rcases List.cons_eq_append_iff.1 hxs with ⟨rfl, hcons⟩ | ⟨before, rfl, rfl⟩
        · obtain ⟨rfl, -⟩ := List.cons.inj hcons
          rw [Except.error.inj (hx.symm.trans hz)]
        · obtain ⟨y, hy⟩ := hbefore x (List.mem_cons_self ..)
          cases hx.symm.trans hy
    | ok y =>
      -- The first element does not fail, so it stands before the one that does.
      rw [mapM_cons_of_ok hx, map_eq_error_iff, ih]
      constructor
      · rintro ⟨before, z, after, rfl, hbefore, hz⟩
        exact ⟨x :: before, z, after, rfl, List.forall_mem_cons.2 ⟨⟨y, hx⟩, hbefore⟩, hz⟩
      · rintro ⟨before, z, after, hxs, hbefore, hz⟩
        rcases List.cons_eq_append_iff.1 hxs with ⟨rfl, hcons⟩ | ⟨before, rfl, rfl⟩
        · obtain ⟨rfl, -⟩ := List.cons.inj hcons
          cases hx.symm.trans hz
        · exact ⟨before, z, after, rfl, (List.forall_mem_cons.1 hbefore).2, hz⟩

end Formula
