/-
  Formula.Scope

  Scopes: variables bound to numbers, in order. A name may be bound more than once.

    * `Scope.lookup? scope name` — the number that `name` stands for. The first
      binding that answers counts; a binding of `n` answers for `n` and, with the
      opposite number, for `~n`.
    * `Scope.assign scope name x` — `scope` with every binding of `name` set to `x`, or
      with one more binding at the end if there was none.
    * `Scope.ofEntries` — the scope of a dictionary, built by inserting its entries in
      order: a repeated name keeps its first place and takes its last number.
    * `Scope.standard` — `pi` and `e`, to nine places.
-/
import Formula.Operator

namespace Formula

/-- A variable and its number. -/
structure Binding where
  name : Text
  value : Float

/-- The bindings that are in force, the one that counts first. -/
abbrev Scope := List Binding

/-- The name that stands for the opposite of a variable. -/
def negated (name : Text) : Text :=
  '~' :: name

/-- The variable of a formula that is evaluated at a number. -/
def defaultVariable : Text :=
  ['x']

/-- A name, or the default variable if the name is empty. -/
def orDefaultVariable (name : Text) : Text :=
  if name = [] then defaultVariable else name

namespace Scope

/-- The number that a binding answers for a name. -/
def answer? (name : Text) (b : Binding) : Option Float :=
  if b.name = name then some b.value
  else if negated b.name = name then some (negate b.value)
  else none

def lookup? (scope : Scope) (name : Text) : Option Float :=
  scope.findSome? (answer? name)

/-- A binding with its number replaced if it binds `name`. -/
def rebind (name : Text) (x : Float) (b : Binding) : Binding :=
  if b.name = name then ⟨name, x⟩ else b

def binds (scope : Scope) (name : Text) : Bool :=
  scope.any fun b => b.name = name

/-- Every binding of a name set to a number, or one more binding at the end. -/
def assign (scope : Scope) (name : Text) (x : Float) : Scope :=
  scope.map (rebind name x) ++ if scope.binds name then [] else [⟨name, x⟩]

/-- The scope of a dictionary that is built from entries in order. -/
def ofEntries (entries : List Binding) : Scope :=
  entries.foldl (fun scope b => scope.assign b.name b.value) []

def standard : Scope :=
  [⟨['p', 'i'], 3.141592654⟩, ⟨['e'], 2.718281828⟩]

/-! ## Looking up -/

@[simp] theorem lookup?_nil (name : Text) : lookup? [] name = none := rfl

/-- The first binding that answers counts. -/
theorem lookup?_cons (b : Binding) (scope : Scope) (name : Text) :
    lookup? (b :: scope) name = (answer? name b).or (lookup? scope name) := by
  rw [lookup?, List.findSome?_cons]
  cases answer? name b <;> rfl

theorem answer?_name (b : Binding) : answer? b.name b = some b.value := by
  simp [answer?]

/-- A binding answers for the opposite of its name with the opposite number. -/
theorem answer?_negated (b : Binding) : answer? (negated b.name) b = some (negate b.value) := by
  have hne : b.name ≠ negated b.name := by
    intro h
    have := congrArg List.length h
    simp [negated] at this
  simp [answer?, hne]

/-- A name that is not that of an opposite has the number of the first binding of it. -/
theorem lookup?_eq_find? (scope : Scope) {name : Text} (h : ∀ n, name ≠ negated n) :
    scope.lookup? name = (scope.find? fun b => b.name = name).map Binding.value := by
  induction scope with
  | nil => rfl
  | cons b scope ih =>
    have hne : negated b.name ≠ name := fun heq => h b.name heq.symm
    rw [lookup?_cons, ih]
    by_cases hb : b.name = name
    · simp [answer?, hb]
    · simp [answer?, hb, hne]

/-- A binding has no answer for a name other than its own and that of its opposite. -/
theorem answer?_eq_none {b : Binding} {name : Text} (h : b.name ≠ name)
    (hnegated : negated b.name ≠ name) : answer? name b = none := by
  simp [answer?, h, hnegated]

/-- A name has no number exactly if no binding is of it, nor of what it is the opposite of. -/
theorem lookup?_eq_none_iff {scope : Scope} {name : Text} :
    scope.lookup? name = none ↔ ∀ b ∈ scope, b.name ≠ name ∧ negated b.name ≠ name := by
  rw [lookup?, List.findSome?_eq_none_iff]
  constructor
  · intro h b hb
    have hnone := h b hb
    constructor
    · rintro rfl
      rw [answer?_name] at hnone
      cases hnone
    · rintro rfl
      rw [answer?_negated] at hnone
      cases hnone
  · intro h b hb
    obtain ⟨hname, hnegated⟩ := h b hb
    exact answer?_eq_none hname hnegated

/-- The bindings that stand first count first. -/
theorem lookup?_append (scope scope' : Scope) (name : Text) :
    lookup? (scope ++ scope') name = (lookup? scope name).or (lookup? scope' name) :=
  List.findSome?_append

end Scope

end Formula
