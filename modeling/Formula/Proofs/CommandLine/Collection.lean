/-
  Formula.Proofs.CommandLine.Collection

  Options with their values attached, and how they are collected.

    * `IsBare bare name` — the text `bare` is `name` without the blanks around it.
    * `Gives t complete ts xs bs` — the arguments `ts` are such options, in any order: one for each
      number of `xs`, one for each binding of `bs`, and `--expr=t` once if `complete` is true,
      otherwise not at all.
    * `AreCollected ts t xs bs` — the arguments `ts` are understood as giving just this.
    * `isPointOption u` — whether an argument gives a number.

  An option is recognised by the first `=` in it, since no flag has one in its spelling; what
  stands behind may be any text. `Gives.areCollected_iff` says that everything is collected in
  order, but for one text: the expression `--` is left unfilled.
  `gives_iff_filter` says that the options for numbers and the others are collected apart, so
  their order among each other does not matter.
-/
import Formula.CommandLine.Arguments

namespace Formula

open Word

variable {t u value name : Text} {ts : List Text} {f : Flag} {complete : Bool} {x : Float}
  {xs : List Float} {bs : List Binding}

/-- The argument that gives the expression. -/
def expressionOption (t : Text) : Text :=
  "--expr=".toList ++ t

/-- The argument that gives a number, as a text writes it. -/
def pointOption (value : Text) : Text :=
  "--x=".toList ++ value

/-- The argument that binds a name to a number, as a text writes it. -/
def bindingOption (name value : Text) : Text :=
  "--var=".toList ++ (name ++ '=' :: value)

/-- A text without the blanks around it: blanks stand on both sides of it, and none at its
    ends. -/
structure IsBare (bare name : Text) : Prop where
  around : ∃ before after, name = before ++ (bare ++ after) ∧
    (∀ c ∈ before, isBlank c = true) ∧ ∀ c ∈ after, isBlank c = true
  head : ∀ c ∈ bare.head?, isBlank c = false
  last : ∀ c ∈ bare.getLast?, isBlank c = false

/-- Arguments that give numbers and bindings in any order, and the expression `t` at one place if
    they are complete. The names of bindings lose the blanks around them. -/
inductive Gives (t : Text) : Bool → List Text → List Float → List Binding → Prop
  | nil : Gives t false [] [] []
  | expression {ts : List Text} {xs : List Float} {bs : List Binding}
      (h : Gives t false ts xs bs) : Gives t true (expressionOption t :: ts) xs bs
  | point {complete : Bool} {value : Text} {x : Float} {ts : List Text} {xs : List Float}
      {bs : List Binding} (hx : readLoosely? value = some x) (h : Gives t complete ts xs bs) :
      Gives t complete (pointOption value :: ts) (x :: xs) bs
  | binding {complete : Bool} {name bare value : Text} {x : Float} {ts : List Text}
      {xs : List Float} {bs : List Binding} (hname : name ≠ []) (hfree : '=' ∉ name)
      (hbare : IsBare bare name) (hx : readLoosely? value = some x)
      (h : Gives t complete ts xs bs) :
      Gives t complete (bindingOption name value :: ts) xs (⟨bare, x⟩ :: bs)

/-- The arguments ask for a run with the expression, the numbers and the bindings that they give,
    in order. -/
def AreCollected (ts : List Text) (t : Text) (xs : List Float) (bs : List Binding) : Prop :=
  Request.ofArguments? ts =
    .ok (.run { expression := some (some t), points := xs.map some, bindings := bs.map some })

/-! ## Names -/

/-- Blanks are dropped up to a character that is none. -/
theorem dropWhile_isBlank_append {before after : Text} (hbefore : ∀ c ∈ before, isBlank c = true)
    (hafter : ∀ c ∈ after.head?, isBlank c = false) :
    (before ++ after).dropWhile isBlank = after := by
  rw [List.dropWhile_append_of_pos hbefore]
  cases after with
  | nil => rfl
  | cons c after => rw [List.dropWhile_cons_of_neg (by simp [hafter c rfl])]

theorem IsBare.trimmed_eq {bare : Text} (h : IsBare bare name) : trimmed isBlank name = bare := by
  obtain ⟨⟨before, after, rfl, hbefore, hafter⟩, hhead, hlast⟩ := h
  cases bare with
  | nil =>
    -- Nothing but blanks is left.
    have hall : ∀ c ∈ before ++ after, isBlank c = true :=
      List.forall_mem_append.2 ⟨hbefore, hafter⟩
    have hnone : (before ++ after ++ []).dropWhile isBlank = [] :=
      dropWhile_isBlank_append hall nofun
    rw [List.append_nil] at hnone
    rw [trimmed, List.nil_append, hnone]
    rfl
  | cons c bare =>
    have hfront : (before ++ (c :: bare ++ after)).dropWhile isBlank = c :: bare ++ after :=
      dropWhile_isBlank_append hbefore hhead
    have hback : (after.reverse ++ (c :: bare).reverse).dropWhile isBlank =
        (c :: bare).reverse := by
      apply dropWhile_isBlank_append
      · simpa using hafter
      · rw [List.head?_reverse]
        exact hlast
    rw [trimmed, hfront, List.reverse_append, hback, List.reverse_reverse]

theorem isBare_trimmed (name : Text) : IsBare (trimmed isBlank name) name := by
  let rest := name.dropWhile isBlank
  have hrest : rest = trimmed isBlank name ++ (rest.reverse.takeWhile isBlank).reverse := by
    rw [trimmed, ← List.reverse_append, List.takeWhile_append_dropWhile, List.reverse_reverse]
  refine ⟨⟨name.takeWhile isBlank, (rest.reverse.takeWhile isBlank).reverse, ?_, ?_, ?_⟩, ?_, ?_⟩
  · rw [← hrest, List.takeWhile_append_dropWhile]
  · exact fun c hc => List.all_eq_true.1 List.all_takeWhile c hc
  · exact fun c hc => List.all_eq_true.1 List.all_takeWhile c (List.mem_reverse.1 hc)
  · intro c hc
    -- The first character is that of the rest behind the blanks.
    have hhead : rest.head? = some c := by
      rw [hrest, List.head?_append, hc]
      rfl
    have hfirst := List.head?_dropWhile_not isBlank name
    rw [show name.dropWhile isBlank = rest from rfl, hhead] at hfirst
    simpa using hfirst
  · intro c hc
    rw [trimmed, List.getLast?_reverse] at hc
    have hfirst := List.head?_dropWhile_not isBlank (name.dropWhile isBlank).reverse
    rw [hc] at hfirst
    simpa using hfirst

/-- A text has one form without the blanks around it, which is the trimmed one. -/
theorem isBare_iff {bare : Text} : IsBare bare name ↔ trimmed isBlank name = bare := by
  refine ⟨IsBare.trimmed_eq, ?_⟩
  rintro rfl
  exact isBare_trimmed name

/-! ## Single options -/

/-- A text is cut at its first `=`. -/
theorem Word.cutAtEquals_append (h : '=' ∉ name) (value : Text) :
    cutAtEquals (name ++ '=' :: value) = some (name, value) := by
  have hall : ∀ c ∈ name, (c != '=') = true := by
    intro c hc
    rw [bne_iff_ne]
    rintro rfl
    exact h hc
  rw [cutAtEquals, if_pos (by simp), List.takeWhile_append_of_pos hall,
    List.dropWhile_append_of_pos hall]
  simp

/-- No flag has `=` in its spelling. -/
theorem Flag.ofSpelling?_eq_none (h : '=' ∈ t) : ofSpelling? t = none := by
  have hfree : bySpelling.all (fun entry => !entry.1.contains '=') = true := by decide
  rw [ofSpelling?, List.lookup_eq_none_iff]
  intro entry hentry
  rw [bne_iff_ne]
  rintro rfl
  have := List.all_eq_true.1 hfree entry hentry
  simp [h] at this

/-- A long flag with any value attached. -/
theorem Word.ofText?_attached (name : Text)
    (hf : Flag.ofSpelling? ('-' :: '-' :: name) = some f) (hfree : '=' ∉ name) (value : Text) :
    ofText? ('-' :: '-' :: (name ++ '=' :: value)) = .ok (flag f (some value)) := by
  have hdashes : '=' ∉ '-' :: '-' :: name := by simp [hfree]
  have hcut : cutAtEquals ('-' :: '-' :: (name ++ '=' :: value)) =
      some ('-' :: '-' :: name, value) :=
    cutAtEquals_append hdashes value
  have hattached : ofAttached? ('-' :: '-' :: (name ++ '=' :: value)) =
      some (flag f (some value)) := by
    simp only [ofAttached?, hcut]
    -- A spelling with two dashes is not that of the short help flag.
    show (Flag.ofSpelling? ('-' :: '-' :: name)).map (fun f => flag f (some value)) = _
    rw [hf]
    rfl
  rw [ofText?, Flag.ofSpelling?_eq_none (by simp)]
  simp only [hattached]

theorem Word.ofText?_expressionOption (t : Text) :
    ofText? (expressionOption t) = .ok (flag (.setting .expression) (some t)) :=
  ofText?_attached ['e', 'x', 'p', 'r'] (by decide) (by decide) t

theorem Word.ofText?_pointOption (value : Text) :
    ofText? (pointOption value) = .ok (flag (.setting .point) (some value)) :=
  ofText?_attached ['x'] (by decide) (by decide) value

theorem Word.ofText?_bindingOption (name value : Text) :
    ofText? (bindingOption name value) =
      .ok (flag (.setting .binding) (some (name ++ '=' :: value))) :=
  ofText?_attached ['v', 'a', 'r'] (by decide) (by decide) (name ++ '=' :: value)

/-- The argument `--` is no flag, so what is one is read as a word by itself. -/
theorem Word.ofTexts?_cons_flag {attached : Option Text}
    (hu : ofText? u = .ok (flag f attached)) (ts : List Text) :
    ofTexts? (u :: ts) = (ofTexts? ts).map (flag f attached :: ·) := by
  have hne : u ≠ ['-', '-'] := by
    rintro rfl
    cases hu
  rw [ofTexts?, if_neg hne, hu]

/-! ## Values -/

/-- What an option gives the expression: the text, or nothing for `--`. -/
def filled? (t : Text) : Option Text :=
  if t = ['-', '-'] then none else some t

theorem filled?_eq_some_iff : filled? t = some t ↔ t ≠ ['-', '-'] := by
  unfold filled?
  split <;> simp_all

namespace Arguments

/-- The settings with further numbers and bindings, and with another expression if there is
    one. -/
def collect (a : Arguments) (expression : Option (Option Text)) (xs : List Float)
    (bs : List Binding) : Arguments :=
  { a with
    expression := expression.or a.expression
    points := a.points ++ xs.map some
    bindings := a.bindings ++ bs.map some }

theorem set?_expression (a : Arguments) (t : Text) :
    a.set? .expression t = .ok (a.collect (some (filled? t)) [] []) := by
  simp only [set?, unlessUnfilled, filled?, collect]
  split <;> simp [Except.map]

theorem set?_point (a : Arguments) (hx : readLoosely? value = some x) :
    a.set? .point value = .ok (a.collect none [x] []) := by
  have hfilled : value ≠ ['-', '-'] := by
    rintro rfl
    cases hx
  simp [set?, unlessUnfilled, hfilled, numberAfter?, hx, collect, Except.map]

theorem set?_binding (a : Arguments) {bare : Text} (hname : name ≠ []) (hfree : '=' ∉ name)
    (hbare : IsBare bare name) (hx : readLoosely? value = some x) :
    a.set? .binding (name ++ '=' :: value) = .ok (a.collect none [] [⟨bare, x⟩]) := by
  have hfilled : name ++ '=' :: value ≠ ['-', '-'] := by
    intro h
    have hmem : '=' ∈ name ++ '=' :: value := by simp
    rw [h] at hmem
    exact absurd hmem (by decide)
  have hread : Binding.ofText? (name ++ '=' :: value) = .ok ⟨bare, x⟩ := by
    simp only [Binding.ofText?, cutAtEquals_append hfree, if_neg hname, hx, isBare_iff.1 hbare]
  simp [set?, unlessUnfilled, hfilled, hread, collect, Except.map]

@[simp] theorem collect_nil (a : Arguments) : a.collect none [] [] = a := by
  simp [collect]

/-- What is collected first stands first; the last expression counts. -/
theorem collect_collect (a : Arguments) (expression expression' : Option (Option Text))
    (xs ys : List Float) (bs cs : List Binding) :
    (a.collect expression xs bs).collect expression' ys cs =
      a.collect (expression'.or expression) (xs ++ ys) (bs ++ cs) := by
  simp [collect, Option.or_assoc]

end Arguments

/-! ## All options -/

/-- Arguments are read as words that add an expression, numbers and bindings to all settings. -/
def Collects (ts : List Text) (expression : Option (Option Text)) (xs : List Float)
    (bs : List Binding) : Prop :=
  ∃ ws, ofTexts? ts = .ok ws ∧ ∀ a : Arguments, a.extras = [] →
    Request.ofWords? a ws = .ok (.run (a.collect expression xs bs))

theorem collects_nil : Collects [] none [] [] := by
  refine ⟨[], rfl, fun a ha => ?_⟩
  rw [Request.ofWords?, if_pos ha, Arguments.collect_nil]

/-- What an option adds comes before what the arguments behind it add. -/
theorem Collects.cons {s : Setting} {expression expression' : Option (Option Text)}
    {ys : List Float} {cs : List Binding} (h : Collects ts expression' ys cs)
    (hu : ofText? u = .ok (flag (.setting s) (some value)))
    (hset : ∀ a : Arguments, a.set? s value = .ok (a.collect expression xs bs)) :
    Collects (u :: ts) (expression'.or expression) (xs ++ ys) (bs ++ cs) := by
  obtain ⟨ws, hws, hcollect⟩ := h
  refine ⟨flag (.setting s) (some value) :: ws, ?_, fun a ha => ?_⟩
  · rw [ofTexts?_cons_flag hu, hws]
    rfl
  · have hextras : (a.collect expression xs bs).extras = [] := ha
    rw [Request.ofWords?, hset, ← Arguments.collect_collect]
    exact hcollect _ hextras

/-- Options are collected in order. -/
theorem Gives.collects (h : Gives t complete ts xs bs) :
    Collects ts (if complete then some (filled? t) else none) xs bs := by
  induction h with
  | nil => exact collects_nil
  | expression _ ih => exact ih.cons (ofText?_expressionOption t) fun a => a.set?_expression t
  | @point complete value x ts xs bs hx _ ih =>
    have hcons := ih.cons (ofText?_pointOption value) fun a => a.set?_point hx
    rwa [Option.or_none] at hcons
  | @binding complete name bare value x ts xs bs hname hfree hbare hx _ ih =>
    have hcons := ih.cons (ofText?_bindingOption name value) fun a =>
      a.set?_binding hname hfree hbare hx
    rwa [Option.or_none] at hcons

/-- All options are collected in order; the expression `--` is left unfilled. -/
theorem Gives.ofArguments? (h : Gives t true ts xs bs) :
    Request.ofArguments? ts =
      .ok (.run (Arguments.collect {} (some (filled? t)) xs bs)) := by
  obtain ⟨ws, hws, hcollect⟩ := h.collects
  rw [Request.ofArguments?, hws]
  exact hcollect {} rfl

/-- The options are collected as they were given, unless the expression is `--`. -/
theorem Gives.areCollected_iff (h : Gives t true ts xs bs) :
    AreCollected ts t xs bs ↔ t ≠ ['-', '-'] := by
  rw [AreCollected, h.ofArguments?, ← filled?_eq_some_iff]
  -- The two requests can differ in the expression only.
  constructor
  · intro hequal
    have hexpression := congrArg Arguments.expression (Request.run.inj (Except.ok.inj hequal))
    exact Option.some.inj hexpression
  · intro hfilled
    rw [hfilled]
    rfl

/-! ## Order -/

/-- Whether an argument gives a number. -/
def isPointOption (u : Text) : Bool :=
  "--x=".toList.isPrefixOf u

/-- The options for numbers and the others may be taken apart. -/
theorem Gives.filter (h : Gives t complete ts xs bs) :
    Gives t false (ts.filter isPointOption) xs [] ∧
      Gives t complete (ts.filter fun u => !isPointOption u) [] bs := by
  induction h with
  | nil => exact ⟨.nil, .nil⟩
  | expression _ ih => exact ⟨ih.1, .expression ih.2⟩
  | point hx _ ih => exact ⟨.point hx ih.1, ih.2⟩
  | binding hname hfree hbare hx _ ih => exact ⟨ih.1, .binding hname hfree hbare hx ih.2⟩

/-- The options for numbers and the others may be mixed in any order. -/
theorem gives_of_filter (hpoints : Gives t false (ts.filter isPointOption) xs [])
    (hothers : Gives t complete (ts.filter fun u => !isPointOption u) [] bs) :
    Gives t complete ts xs bs := by
  induction ts generalizing complete xs bs with
  | nil =>
    cases hpoints
    exact hothers
  | cons u ts ih =>
    -- The first argument stands first in one of the two lists, and the other is that of the rest.
    cases hu : isPointOption u with
    | true =>
      rw [List.filter_cons_of_pos hu] at hpoints
      rw [List.filter_cons_of_neg (by simp [hu])] at hothers
      cases hpoints with
      | point hx hrest => exact .point hx (ih hrest hothers)
    | false =>
      rw [List.filter_cons_of_neg (by simp [hu])] at hpoints
      rw [List.filter_cons_of_pos (by simp [hu])] at hothers
      cases hothers with
      | expression hrest => exact .expression (ih hpoints hrest)
      | binding hname hfree hbare hx hrest =>
        exact .binding hname hfree hbare hx (ih hpoints hrest)

theorem gives_iff_filter :
    Gives t complete ts xs bs ↔
      Gives t false (ts.filter isPointOption) xs [] ∧
        Gives t complete (ts.filter fun u => !isPointOption u) [] bs :=
  ⟨Gives.filter, fun h => gives_of_filter h.1 h.2⟩

end Formula
