/-
  Formula.Proofs.Scope.Dictionary

  The scope of a dictionary, apart from the way in which it is built.

    * `Scope.IsDictionary entries scope` — `scope` has the names of `entries`, each at the place
      of its first entry and with the number of its last one.

  `isDictionary_iff` says that this is the scope that is built by one assignment after
  another.
-/
import Mathlib.Data.List.Induction
import Mathlib.Data.Option.Basic
import Formula.Proofs.Scope.Assignment

namespace Formula.Scope

/-- The dictionary of a list of entries: a repeated name keeps its first place and has its last
    number. -/
structure IsDictionary (entries scope : Scope) : Prop where
  names_eq : scope.map Binding.name = (entries.map Binding.name).eraseDups
  last : ∀ b ∈ scope, (entries.reverse.find? fun c => c.name = b.name) = some b

variable {entries scope scope' : Scope}

/-- A name at the end is left if it does not stand before. -/
theorem eraseDups_concat (names : List Text) (name : Text) :
    (names ++ [name]).eraseDups = names.eraseDups ++ if name ∈ names then [] else [name] := by
  rw [List.eraseDups_append, List.removeAll]
  split
  · rename_i hmem
    rw [List.filter_cons_of_neg (by simpa using hmem)]
    rfl
  · rename_i hmem
    rw [List.filter_cons_of_pos (by simpa using hmem), List.filter_nil, List.eraseDups_cons]
    rfl

theorem isDictionary_nil : IsDictionary [] [] :=
  ⟨rfl, List.forall_mem_nil _⟩

/-- One more entry is one more assignment. -/
theorem IsDictionary.concat (h : IsDictionary entries scope) (b : Binding) :
    IsDictionary (entries ++ [b]) (scope.assign b.name b.value) where
  names_eq := by
    have hmem : b.name ∈ scope.map Binding.name ↔ b.name ∈ entries.map Binding.name := by
      rw [h.names_eq, List.mem_eraseDups]
    rw [map_name_assign, List.map_append, List.map_singleton, eraseDups_concat, h.names_eq]
    simp only [← h.names_eq, hmem]
  last c hc := by
    rw [List.reverse_concat]
    by_cases hname : c.name = b.name
    · have hvalue : c.value = b.value := value_of_mem_assign hc hname
      obtain rfl : c = b := Binding.eq_of_name_value hname hvalue
      exact List.find?_cons_of_pos (by simp)
    · -- An entry of another name was there before.
      have hother : c ∈ scope.filter fun d => d.name ≠ b.name := by
        rw [← filter_ne_assign scope b.name b.value]
        exact List.mem_filter.2 ⟨hc, by simpa using hname⟩
      rw [List.find?_cons_of_neg (by simpa using fun heq => hname heq.symm)]
      exact h.last c (List.mem_filter.1 hother).1

theorem isDictionary_ofEntries (entries : Scope) : IsDictionary entries (ofEntries entries) := by
  induction entries using List.reverseRecOn with
  | nil => exact isDictionary_nil
  | append_singleton entries b ih =>
    rw [ofEntries, List.foldl_concat]
    exact ih.concat b

/-- Names and last entries leave no choice. -/
theorem IsDictionary.eq (h : IsDictionary entries scope) (h' : IsDictionary entries scope') :
    scope = scope' := by
  have hlast : ∀ {scope : Scope}, IsDictionary entries scope → scope.map some =
      (entries.map Binding.name).eraseDups.map fun name =>
        entries.reverse.find? fun c => c.name = name := by
    intro scope h
    rw [← h.names_eq, List.map_map]
    exact List.map_congr_left fun b hb => (h.last b hb).symm
  exact List.map_injective_iff.2 (Option.some_injective Binding) ((hlast h).trans (hlast h').symm)

theorem isDictionary_iff : IsDictionary entries scope ↔ scope = ofEntries entries := by
  refine ⟨fun h => h.eq (isDictionary_ofEntries entries), ?_⟩
  rintro rfl
  exact isDictionary_ofEntries entries

/-- Of two entries for `a` the first gives the place and the last the number. -/
example : IsDictionary [⟨['a'], 1.0⟩, ⟨['b'], 2.0⟩, ⟨['a'], 3.0⟩] [⟨['a'], 3.0⟩, ⟨['b'], 2.0⟩] :=
  isDictionary_iff.2 rfl

end Formula.Scope
