/-
  Formula.Proofs.Samples.Shape

  The shapes of nested lists.

    * `Samples.HasShape s shape` — the parts of `s` that stand side by side have the same sizes,
      at every depth, and `shape` has these sizes from the outside in. A number has the empty
      shape.
    * `Samples.IsArray s` — `s` has a shape, of at most `Samples.deepest` levels.

  Regular lists are recognised by two functions: one compares neighbours, the other finds the
  sizes on which all parts agree. `isArray_iff` says that together they recognise the arrays, and
  `numbers?_of_isArray` and `numbers?_of_not_isArray` that the numbers are given for arrays and
  for nothing else.
-/
import Formula.Samples

namespace Formula

namespace Samples

/-- A nested list whose parts have the same shape, level by level. -/
inductive HasShape : Samples → List Nat → Prop
  | one (x : Float) : HasShape (one x) []
  | empty : HasShape (many []) [0]
  | many {part : Samples} {parts : List Samples} {shape : List Nat}
      (h : ∀ p ∈ part :: parts, HasShape p shape) :
      HasShape (many (part :: parts)) ((part :: parts).length :: shape)

/-- A nested list that has a shape, of no more levels than there may be. -/
def IsArray (s : Samples) : Prop :=
  ∃ shape, HasShape s shape ∧ shape.length ≤ deepest

variable {s part : Samples} {parts : List Samples} {shape : List Nat}

@[simp] theorem commonSizes_self (sizes : List Nat) : commonSizes sizes sizes = sizes := by
  induction sizes with
  | nil => rfl
  | cons n sizes ih => rw [commonSizes, if_pos rfl, ih]

/-! ## Lists that have a shape -/

theorem sizesOfAll_of_forall (h : ∀ p ∈ part :: parts, p.sizes = shape) :
    sizesOfAll (part :: parts) = shape := by
  induction parts generalizing part with
  | nil => exact h part (List.mem_singleton_self part)
  | cons q parts ih =>
    obtain ⟨hpart, hparts⟩ := List.forall_mem_cons.1 h
    rw [sizesOfAll, ih hparts, hpart, commonSizes_self]
    exact List.cons_ne_nil q parts

theorem areAlike_of_forall (hregular : ∀ p ∈ parts, p.isRegular = true)
    (hsizes : ∀ p ∈ parts, p.sizes = shape) : areAlike parts = true := by
  induction parts with
  | nil => rfl
  | cons p parts ih =>
    obtain ⟨hp, hps⟩ := List.forall_mem_cons.1 hregular
    obtain ⟨hpsizes, hpssizes⟩ := List.forall_mem_cons.1 hsizes
    rw [areAlike, hp, ih hps hpssizes]
    cases parts with
    | nil => rfl
    | cons q parts =>
      have hq : q.sizes = p.sizes := (hpssizes q (List.mem_cons_self ..)).trans hpsizes.symm
      simp [hq]

/-- A list that has a shape is regular, and its sizes are the shape. -/
theorem HasShape.isRegular_sizes (h : HasShape s shape) :
    s.isRegular = true ∧ s.sizes = shape := by
  induction h with
  | one x => exact ⟨rfl, rfl⟩
  | empty => exact ⟨rfl, rfl⟩
  | many _ ih =>
    constructor
    · exact areAlike_of_forall (fun p hp => (ih p hp).1) fun p hp => (ih p hp).2
    · exact congrArg _ (sizesOfAll_of_forall fun p hp => (ih p hp).2)

/-! ## Lists that are regular -/

mutual

/-- A regular list has its sizes as the shape. -/
theorem hasShape_of_isRegular : ∀ {s : Samples}, s.isRegular = true → HasShape s s.sizes
  | .one x, _ => .one x
  | .many [], _ => .empty
  | .many (_ :: _), h => .many (forall_hasShape_of_areAlike h)

/-- Neighbours of the same sizes leave one shape for all. -/
theorem forall_hasShape_of_areAlike : ∀ {parts : List Samples}, areAlike parts = true →
    ∀ p ∈ parts, HasShape p (sizesOfAll parts)
  | [], _ => List.forall_mem_nil _
  | [part], h => by
    have hregular : part.isRegular = true := by simpa [areAlike] using h
    exact List.forall_mem_singleton.2 (hasShape_of_isRegular hregular)
  | part :: q :: parts, h => by
    rw [areAlike, Bool.and_eq_true, Bool.and_eq_true] at h
    obtain ⟨⟨hpart, hparts⟩, hneighbour⟩ := h
    have hrest : ∀ p ∈ q :: parts, HasShape p (sizesOfAll (q :: parts)) :=
      forall_hasShape_of_areAlike hparts
    have hsizes : sizesOfAll (q :: parts) = part.sizes := by
      rw [← (hrest q (List.mem_cons_self ..)).isRegular_sizes.2]
      simpa using hneighbour
    have hall : sizesOfAll (part :: q :: parts) = part.sizes := by
      rw [sizesOfAll, hsizes, commonSizes_self]
      exact List.cons_ne_nil q parts
    rw [hall]
    exact List.forall_mem_cons.2 ⟨hasShape_of_isRegular hpart, hsizes ▸ hrest⟩

end

/-! ## Numbers -/

theorem isArray_iff : s.IsArray ↔ s.isRegular = true ∧ s.sizes.length ≤ deepest := by
  constructor
  · rintro ⟨shape, hshape, hlength⟩
    obtain ⟨hregular, rfl⟩ := hshape.isRegular_sizes
    exact ⟨hregular, hlength⟩
  · rintro ⟨hregular, hlength⟩
    exact ⟨s.sizes, hasShape_of_isRegular hregular, hlength⟩

instance (s : Samples) : Decidable s.IsArray :=
  decidable_of_iff _ isArray_iff.symm

/-- An array has its numbers, from left to right. -/
theorem numbers?_of_isArray (h : s.IsArray) : s.numbers? = .ok s.flatten := by
  obtain ⟨hregular, hlength⟩ := isArray_iff.1 h
  rw [numbers?, if_pos (by simp [hregular, hlength])]

/-- What is no array is refused. -/
theorem numbers?_of_not_isArray (h : ¬ s.IsArray) :
    ∃ fault, s.numbers? = .error fault ∧ fault.category = .value := by
  have hnot : ¬ (s.isRegular && s.sizes.length ≤ deepest) = true := by
    simpa [isArray_iff] using h
  rw [numbers?, if_neg hnot]
  split
  · exact ⟨.irregular s.sizes, rfl, rfl⟩
  · exact ⟨.tooDeep deepest, rfl, rfl⟩

/-- A list that has a shape can only have too many levels. -/
theorem HasShape.numbers?_of_lt (h : HasShape s shape) (hlength : deepest < shape.length) :
    s.numbers? = .error (.tooDeep deepest) := by
  obtain ⟨hregular, rfl⟩ := h.isRegular_sizes
  have hdeep : ¬ s.sizes.length ≤ deepest := Nat.not_le.2 hlength
  rw [numbers?, if_neg (by simp [hdeep]), if_neg fun hless => hdeep (Nat.le_of_lt hless)]

/-- A number under brackets has one part at every level. -/
theorem hasShape_repeat (x : Float) (n : Nat) :
    HasShape (Nat.repeat (fun s => many [s]) n (one x)) (List.replicate n 1) := by
  induction n with
  | zero => exact .one x
  | succ n ih => exact .many (List.forall_mem_singleton.2 ih)

/-- Two lists of different sizes side by side are no array. -/
example : ¬ (many [many [one 1.0, one 2.0], many [one 3.0]]).IsArray := by
  decide

end Samples

end Formula
