/-
  Formula.Proofs.Scope.Assignment

  Assignment to a variable: what it does to the bindings of a scope, and what a look-up sees
  of it.

    * `IsPlain name` — `name` does not begin with the mark of an opposite.
    * `Scope.Alike scope scope'` — every name has the same number in both scopes, or none.
    * `Binding.Apart b c` — no name is answered for by both bindings.
    * `Scope.IsUpdate scope name x scope'` — what `scope'` has to be for an assignment of `x`
      to `name`: the old bindings at their places with `x` for `name`, and a new one behind
      them exactly if `name` had none.

  `isUpdate_iff` says that an assignment is the only update. A look-up goes through all
  bindings in order and takes two kinds of answers, so the order of bindings matters only
  where one name is answered for twice: `lookup?_perm` is for bindings that are pairwise
  apart, as those of different plain names are.
-/
import Mathlib.Data.List.Perm.Basic
import Formula.Scope

namespace Formula

/-- A name that does not begin with the mark of an opposite. -/
def IsPlain (name : Text) : Prop :=
  name.head? ≠ some '~'

instance (name : Text) : Decidable (IsPlain name) :=
  inferInstanceAs (Decidable (name.head? ≠ some '~'))

/-- A plain name is not the name of an opposite. -/
theorem IsPlain.ne_negated {name : Text} (h : IsPlain name) (n : Text) : name ≠ negated n := by
  rintro rfl
  exact h rfl

theorem negated_injective {m n : Text} (h : negated m = negated n) : m = n :=
  List.tail_eq_of_cons_eq h

theorem Binding.eq_of_name_value {b c : Binding} (hname : b.name = c.name)
    (hvalue : b.value = c.value) : b = c := by
  cases b
  cases c
  exact congr (congrArg Binding.mk hname) hvalue

/-- No name is answered for by both bindings. -/
def Binding.Apart (b c : Binding) : Prop :=
  ∀ name, Scope.answer? name b = none ∨ Scope.answer? name c = none

theorem Binding.Apart.symm {b c : Binding} (h : b.Apart c) : c.Apart b :=
  fun name => (h name).symm

/-- Different plain names share no answer: a name is at most the opposite of one of them. -/
theorem Binding.apart_of_ne {b c : Binding} (hb : IsPlain b.name) (hc : IsPlain c.name)
    (h : b.name ≠ c.name) : b.Apart c := by
  intro name
  by_cases hname : b.name = name
  · right
    subst hname
    exact Scope.answer?_eq_none h.symm (hb.ne_negated c.name).symm
  · by_cases hnegated : negated b.name = name
    · right
      subst hnegated
      exact Scope.answer?_eq_none (hc.ne_negated b.name) fun heq => h (negated_injective heq).symm
    · exact .inl (Scope.answer?_eq_none hname hnegated)

namespace Scope

/-- Two scopes in which every name has the same number, or none. -/
def Alike (scope scope' : Scope) : Prop :=
  ∀ name, scope.lookup? name = scope'.lookup? name

/-- What an assignment appends: a binding of the name if there was none. -/
def added (scope : Scope) (name : Text) (x : Float) : Scope :=
  if scope.binds name then [] else [⟨name, x⟩]

/-- What becomes of a scope when a variable is assigned to. The three fields leave one scope. -/
structure IsUpdate (scope : Scope) (name : Text) (x : Float) (scope' : Scope) : Prop where
  value_eq : ∀ b ∈ scope', b.name = name → b.value = x
  /-- The bindings of other names are those from before, in their order. -/
  others_eq : (scope'.filter fun b => b.name ≠ name) = scope.filter fun b => b.name ≠ name
  /-- Every binding keeps its place, and one is appended exactly if the name had none. -/
  names_eq : scope'.map Binding.name =
    scope.map Binding.name ++ if name ∈ scope.map Binding.name then [] else [name]

variable {scope scope' scope'' : Scope} {m n name : Text} {x y : Float} {b : Binding}

/-! ## Bindings -/

theorem assign_eq (scope : Scope) (n : Text) (x : Float) :
    scope.assign n x = scope.map (rebind n x) ++ scope.added n x := rfl

theorem added_cases (scope : Scope) (n : Text) (x : Float) :
    scope.added n x = [] ∨ scope.added n x = [⟨n, x⟩] := by
  unfold added
  split
  · exact .inl rfl
  · exact .inr rfl

theorem eq_of_mem_added (h : b ∈ scope.added n x) : b = ⟨n, x⟩ := by
  rcases added_cases scope n x with hadded | hadded
  · rw [hadded] at h
    cases h
  · rwa [hadded, List.mem_singleton] at h

@[simp] theorem name_rebind (n : Text) (x : Float) (b : Binding) :
    (rebind n x b).name = b.name := by
  unfold rebind
  split
  · rename_i h
    exact h.symm
  · rfl

theorem rebind_of_ne (h : b.name ≠ n) (x : Float) : rebind n x b = b :=
  if_neg h

theorem value_rebind (h : b.name = n) (x : Float) : (rebind n x b).value = x := by
  rw [rebind, if_pos h]

/-- Assignments to different variables do not see each other's bindings. -/
theorem rebind_comm (h : m ≠ n) (x y : Float) (b : Binding) :
    rebind n x (rebind m y b) = rebind m y (rebind n x b) := by
  by_cases hn : b.name = n
  · have hm : b.name ≠ m := fun hm => h (hm.symm.trans hn)
    have hm' : (rebind n x b).name ≠ m := by rwa [name_rebind]
    rw [rebind_of_ne hm, rebind_of_ne hm']
  · have hn' : (rebind m y b).name ≠ n := by rwa [name_rebind]
    rw [rebind_of_ne hn, rebind_of_ne hn']

/-- A binding of another variable answers as before. -/
theorem answer?_rebind (h : name ≠ n) (hnegated : name ≠ negated n) (x : Float) (b : Binding) :
    answer? name (rebind n x b) = answer? name b := by
  by_cases hb : b.name = n
  · subst hb
    have hrebound : answer? name (rebind b.name x b) = none :=
      answer?_eq_none (by rw [name_rebind]; exact h.symm) (by rw [name_rebind]; exact hnegated.symm)
    rw [hrebound, answer?_eq_none h.symm hnegated.symm]
  · rw [rebind_of_ne hb]

theorem binds_eq_true_iff : scope.binds n = true ↔ n ∈ scope.map Binding.name := by
  simp [binds]

theorem map_name_added (scope : Scope) (n : Text) (x : Float) :
    (scope.added n x).map Binding.name = if n ∈ scope.map Binding.name then [] else [n] := by
  unfold added
  simp only [← binds_eq_true_iff]
  cases scope.binds n with
  | true => rfl
  | false => rfl

/-! ## The only update -/

theorem value_of_mem_assign (hb : b ∈ scope.assign n x) (h : b.name = n) : b.value = x := by
  rw [assign_eq, List.mem_append] at hb
  rcases hb with hb | hb
  · obtain ⟨c, -, rfl⟩ := List.mem_map.1 hb
    rw [name_rebind] at h
    exact value_rebind h x
  · rw [eq_of_mem_added hb]

theorem map_name_assign (scope : Scope) (n : Text) (x : Float) :
    (scope.assign n x).map Binding.name =
      scope.map Binding.name ++ if n ∈ scope.map Binding.name then [] else [n] := by
  have hold : (scope.map (rebind n x)).map Binding.name = scope.map Binding.name := by
    rw [List.map_map]
    exact List.map_congr_left fun b _ => name_rebind n x b
  rw [assign_eq, List.map_append, hold, map_name_added]

theorem filter_ne_assign (scope : Scope) (n : Text) (x : Float) :
    ((scope.assign n x).filter fun b => b.name ≠ n) = scope.filter fun b => b.name ≠ n := by
  have hnew : ((scope.added n x).filter fun b => b.name ≠ n) = [] :=
    List.filter_eq_nil_iff.2 fun b hb => by simp [eq_of_mem_added hb]
  have hold : (scope.map (rebind n x)).filter (fun b => b.name ≠ n) =
      scope.filter fun b => b.name ≠ n := by
    rw [List.filter_map]
    simp only [Function.comp_def, name_rebind]
    -- No binding that is left has the name.
    refine (List.map_congr_left fun b hb => ?_).trans (List.map_id _)
    exact rebind_of_ne (of_decide_eq_true (List.mem_filter.1 hb).2) x
  rw [assign_eq, List.filter_append, hold, hnew, List.append_nil]

theorem isUpdate_assign (scope : Scope) (n : Text) (x : Float) :
    IsUpdate scope n x (scope.assign n x) where
  value_eq _ hb h := value_of_mem_assign hb h
  others_eq := filter_ne_assign scope n x
  names_eq := map_name_assign scope n x

/-- Bindings with the same names are the same if those of one name all have one number and the
    others are the same. -/
theorem eq_of_map_name_eq (hnames : scope.map Binding.name = scope'.map Binding.name)
    (hothers : (scope.filter fun b => b.name ≠ n) = scope'.filter fun b => b.name ≠ n)
    (hvalue : ∀ b ∈ scope, b.name = n → b.value = x)
    (hvalue' : ∀ b ∈ scope', b.name = n → b.value = x) : scope = scope' := by
  induction scope generalizing scope' with
  | nil => exact (List.map_eq_nil_iff.1 hnames.symm).symm
  | cons b scope ih =>
    cases scope' with
    | nil => cases hnames
    | cons c scope' =>
      obtain ⟨hname, htails⟩ := List.cons.inj hnames
      obtain ⟨hb, hbs⟩ := List.forall_mem_cons.1 hvalue
      obtain ⟨hc, hcs⟩ := List.forall_mem_cons.1 hvalue'
      by_cases h : b.name = n
      · have hvalues : b.value = c.value := (hb h).trans (hc (hname ▸ h)).symm
        obtain rfl : b = c := Binding.eq_of_name_value hname hvalues
        rw [List.filter_cons_of_neg (by simpa using h),
          List.filter_cons_of_neg (by simpa using h)] at hothers
        rw [ih htails hothers hbs hcs]
      · have hne : c.name ≠ n := hname ▸ h
        rw [List.filter_cons_of_pos (by simpa using h),
          List.filter_cons_of_pos (by simpa using hne)] at hothers
        obtain ⟨rfl, hrest⟩ := List.cons.inj hothers
        rw [ih htails hrest hbs hcs]

/-- An assignment is the only update. -/
theorem isUpdate_iff : IsUpdate scope n x scope' ↔ scope' = scope.assign n x := by
  refine ⟨fun h => ?_, ?_⟩
  · have hassign := isUpdate_assign scope n x
    exact eq_of_map_name_eq (h.names_eq.trans hassign.names_eq.symm)
      (h.others_eq.trans hassign.others_eq.symm) h.value_eq hassign.value_eq
  · rintro rfl
    exact isUpdate_assign scope n x

theorem mem_map_name_assign (scope : Scope) (n : Text) (x : Float) :
    n ∈ (scope.assign n x).map Binding.name := by
  rw [map_name_assign]
  split
  · rwa [List.append_nil]
  · exact List.mem_append_right _ (List.mem_singleton_self n)

/-- The last of two updates of one variable counts. -/
theorem IsUpdate.trans (h : IsUpdate scope n x scope') (h' : IsUpdate scope' n y scope'') :
    IsUpdate scope n y scope'' where
  value_eq := h'.value_eq
  others_eq := h'.others_eq.trans h.others_eq
  names_eq := by
    have hmem : n ∈ scope'.map Binding.name := by
      rw [isUpdate_iff.1 h]
      exact mem_map_name_assign scope n x
    rw [h'.names_eq, if_pos hmem, List.append_nil, h.names_eq]

@[simp] theorem assign_assign (scope : Scope) (n : Text) (x y : Float) :
    (scope.assign n x).assign n y = scope.assign n y :=
  isUpdate_iff.1 ((isUpdate_assign scope n x).trans (isUpdate_assign _ n y))

/-! ## Looking up -/

/-- The variable that was assigned to has the number; only an opposite could answer before. -/
theorem lookup?_assign_self (hn : IsPlain n) (scope : Scope) (x : Float) :
    (scope.assign n x).lookup? n = some x := by
  rw [lookup?_eq_find? _ hn.ne_negated]
  cases hfind : (scope.assign n x).find? fun b => b.name = n with
  | none =>
    obtain ⟨b, hb, hname⟩ := List.mem_map.1 (mem_map_name_assign scope n x)
    exact absurd hname (by simpa using List.find?_eq_none.1 hfind b hb)
  | some b =>
    have hname : b.name = n := by simpa using List.find?_some hfind
    rw [Option.map_some, value_of_mem_assign (List.mem_of_find?_eq_some hfind) hname]

theorem lookup?_assign_of_ne (h : name ≠ n) (hnegated : name ≠ negated n) (scope : Scope)
    (x : Float) : (scope.assign n x).lookup? name = scope.lookup? name := by
  have hold : lookup? (scope.map (rebind n x)) name = scope.lookup? name := by
    rw [lookup?, lookup?, List.findSome?_map]
    exact congrArg (List.findSome? · scope) (funext (answer?_rebind h hnegated x))
  have hnew : (scope.added n x).lookup? name = none := by
    apply lookup?_eq_none_iff.2
    intro b hb
    rw [eq_of_mem_added hb]
    exact ⟨h.symm, hnegated.symm⟩
  rw [assign_eq, lookup?_append, hold, hnew, Option.or_none]

/-- The order of bindings does not matter where each name has at most one answer. -/
theorem lookup?_perm (h : scope.Perm scope') (hapart : scope.Pairwise Binding.Apart) :
    scope.Alike scope' := by
  intro name
  induction h with
  | nil => rfl
  | cons b _ ih => rw [lookup?_cons, lookup?_cons, ih (List.pairwise_cons.1 hapart).2]
  | swap b c scope =>
    rw [lookup?_cons, lookup?_cons, lookup?_cons, lookup?_cons]
    have hcb := (List.pairwise_cons.1 hapart).1 b (List.mem_cons_self ..) name
    rcases hcb with hnone | hnone
    · simp only [hnone, Option.none_or]
    · simp only [hnone, Option.none_or]
  | trans hperm _ ih ih' =>
    exact (ih hapart).trans (ih' (hperm.pairwise hapart fun h => h.symm))

/-- Two assignments one after the other change the old bindings, and append what is new in
    order. -/
theorem assign_assign_of_ne (h : m ≠ n) (scope : Scope) (x y : Float) :
    (scope.assign m y).assign n x =
      scope.map (fun b => rebind n x (rebind m y b)) ++
        (scope.added m y ++ scope.added n x) := by
  have hbinds : (scope.assign m y).binds n = scope.binds n := by
    rw [Bool.eq_iff_iff, binds_eq_true_iff, binds_eq_true_iff, map_name_assign, List.mem_append]
    refine ⟨fun hmem => hmem.resolve_right fun hnew => ?_, .inl⟩
    split at hnew
    · cases hnew
    · exact h (List.mem_singleton.1 hnew).symm
  have hadded : (scope.assign m y).added n x = scope.added n x := by
    rw [added, added, hbinds]
  have hrebound : (scope.added m y).map (rebind n x) = scope.added m y := by
    refine (List.map_congr_left fun b hb => ?_).trans (List.map_id _)
    rw [eq_of_mem_added hb]
    exact rebind_of_ne h x
  rw [assign_eq, hadded, assign_eq, List.map_append, List.map_map, hrebound, List.append_assoc]
  rfl

/-- Two variables may be assigned to in either order. -/
theorem assign_comm (hm : IsPlain m) (hn : IsPlain n) (h : m ≠ n) (scope : Scope) (x y : Float) :
    Alike ((scope.assign m y).assign n x) ((scope.assign n x).assign m y) := by
  intro name
  have hold : scope.map (fun b => rebind n x (rebind m y b)) =
      scope.map fun b => rebind m y (rebind n x b) :=
    List.map_congr_left fun b _ => rebind_comm h x y b
  -- The two scopes differ in the order of what they append.
  have hapart : (scope.added m y ++ scope.added n x).Pairwise Binding.Apart := by
    have hpair : Binding.Apart ⟨m, y⟩ ⟨n, x⟩ := Binding.apart_of_ne hm hn h
    rcases added_cases scope m y with hnew | hnew <;>
      rcases added_cases scope n x with hnew' | hnew' <;> simp [hnew, hnew', hpair]
  rw [assign_assign_of_ne h, assign_assign_of_ne h.symm, hold, lookup?_append,
    lookup?_perm List.perm_append_comm hapart name, ← lookup?_append]

/-- The bindings of different plain names are pairwise apart. -/
theorem pairwise_apart (hplain : ∀ b ∈ scope, IsPlain b.name)
    (hnames : (scope.map Binding.name).Nodup) : scope.Pairwise Binding.Apart := by
  refine (List.pairwise_map.1 hnames).imp_of_mem fun hb hc hne => ?_
  exact Binding.apart_of_ne (hplain _ hb) (hplain _ hc) hne

/-! ## The laws of assignment -/

/-- Assignment to a variable is a lawful update. For every scope, in which names may be repeated
    and opposites may be bound, every name that is not empty and does not begin with the mark
    of an opposite, and every number:

    the assignment is the one update of the scope, with the number at every binding of the
    name, all other bindings as they were, and one more at the end exactly if the name had
    none;

    the name has the number, and all names but it and its opposite have what they had;

    a second assignment to the name replaces the first, and assignments to two such names may
    change places as far as any look-up can see. -/
theorem assign_lawful (scope : Scope) {n : Text} (hne : n ≠ []) (hn : IsPlain n) (x : Float) :
    (∀ scope', IsUpdate scope n x scope' ↔ scope' = scope.assign (orDefaultVariable n) x) ∧
    (scope.assign (orDefaultVariable n) x).lookup? n = some x ∧
    (∀ name, name ≠ n → name ≠ negated n →
      (scope.assign (orDefaultVariable n) x).lookup? name = scope.lookup? name) ∧
    (∀ y, (scope.assign (orDefaultVariable n) x).assign (orDefaultVariable n) y =
      scope.assign (orDefaultVariable n) y) ∧
    ∀ (m : Text) (y : Float), m ≠ [] → IsPlain m → m ≠ n →
      Alike ((scope.assign (orDefaultVariable m) y).assign (orDefaultVariable n) x)
        ((scope.assign (orDefaultVariable n) x).assign (orDefaultVariable m) y) := by
  have hgiven : ∀ {m : Text}, m ≠ [] → orDefaultVariable m = m := fun h => if_neg h
  rw [hgiven hne]
  refine ⟨fun scope' => isUpdate_iff, lookup?_assign_self hn scope x,
    fun name h hnegated => lookup?_assign_of_ne h hnegated scope x,
    fun y => assign_assign scope n x y, ?_⟩
  intro m y hm hplain h
  rw [hgiven hm]
  exact assign_comm hplain hn h scope x y

/-- Where `x` is bound twice and `~x` before it, an assignment changes both bindings of `x`; a
    new variable may be assigned to before or after. -/
theorem assign_lawful_shadowed :
    IsUpdate [⟨['~', 'x'], 5.0⟩, ⟨['x'], 1.0⟩, ⟨['y'], 2.0⟩, ⟨['x'], 3.0⟩] ['x'] 4.0
        [⟨['~', 'x'], 5.0⟩, ⟨['x'], 4.0⟩, ⟨['y'], 2.0⟩, ⟨['x'], 4.0⟩] ∧
      Alike [⟨['~', 'x'], 5.0⟩, ⟨['x'], 4.0⟩, ⟨['y'], 2.0⟩, ⟨['x'], 4.0⟩, ⟨['z'], 6.0⟩]
        ((assign [⟨['~', 'x'], 5.0⟩, ⟨['x'], 1.0⟩, ⟨['y'], 2.0⟩, ⟨['x'], 3.0⟩] ['x'] 4.0).assign
          ['z'] 6.0) := by
  obtain ⟨hupdate, -, -, -, hcomm⟩ :=
    assign_lawful [⟨['~', 'x'], 5.0⟩, ⟨['x'], 1.0⟩, ⟨['y'], 2.0⟩, ⟨['x'], 3.0⟩]
      (n := ['x']) (by decide) (by decide) 4.0
  exact ⟨(hupdate _).2 rfl, hcomm ['z'] 6.0 (by decide) (by decide) (by decide)⟩

end Scope

end Formula
