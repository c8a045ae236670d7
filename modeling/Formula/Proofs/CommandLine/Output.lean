/-
  Formula.Proofs.CommandLine.Output

  What the program prints about an expression that is given with numbers and bindings.

    * `Expression.exists_evaluate` — over the standard functions every evaluation has a number.
    * `Report.IsLine e label p line` — `line` shows the number of `e` at the point `p`.
    * `Report.IsBody e bs xs body` — `body` is a line about the dictionary of the bindings `bs`, if
      there are any, and a line about each of the numbers `xs`; or the line about the standard
      scope, if there is neither.

  The printed lines are described by what the expression answers, and not by the way in which
  they are made. A report is printed as a whole or not at all, so it matters that no evaluation
  fails.
-/
import Formula.CommandLine.Run
import Formula.Proofs.CommandLine.Collection
import Formula.Proofs.Machine.Failure
import Formula.Proofs.Scope.Dictionary
import Formula.Proofs.Traversal

namespace Formula

variable {e : Expression} {t line : Text} {ts ts' lines body : List Text} {xs : List Float}
  {bs : List Binding} {p : Point}

/-! ## Evaluations that cannot fail -/

/-- A run applies functions of its table only. -/
theorem Machine.mem_of_mem_applications {table : List Function} {scope : Scope}
    {tokens : List Token} {stack : Machine.Stack} {f : Function} {x : Option Float}
    (h : (f, x) ∈ applications table scope tokens stack) : f ∈ table := by
  obtain ⟨t, rest, -, -, hfind⟩ := mem_applications_iff.1 h
  exact List.mem_of_find?_eq_some hfind

/-- Over the standard functions an expression has a number at every point, be it no number. -/
theorem Expression.exists_evaluate (h : e.table = Function.standard) (p : Point) :
    ∃ y, e.evaluate p = .ok y := by
  cases heval : e.evaluate p with
  | ok y => exact ⟨y, rfl⟩
  | error fault =>
    have herror : Machine.evaluate e.table p.scope e.rpn = .error fault := by
      rw [e.evaluate_rpn]
      exact congrArg _ heval
    obtain ⟨f, x, fault', hmem, hfault, harithmetic⟩ :=
      (Machine.exists_evaluate_eq_error_iff fun _ => hasNumber_of_mem_rpn).1 ⟨fault, herror⟩
    have hstandard : f ∈ Function.standard := h ▸ Machine.mem_of_mem_applications hmem
    have hcontained := Function.isContained_of_standard hstandard hfault
    exact absurd ((Category.isArithmetic_iff_mem _).1 hcontained) harithmetic

/-! ## Lines -/

namespace Report

/-- A line shows the number of an expression at a point. -/
def IsLine (e : Expression) (label : Text) (p : Point) (line : Text) : Prop :=
  ∃ y, e.evaluate p = .ok y ∧ line = "f(".toList ++ label ++ ") = ".toList ++ formatNumber y

/-- Lines show the numbers of an expression at numbers, one by one. -/
def AreNumberLines (e : Expression) : List Float → List Text → Prop :=
  List.Forall₂ fun x => IsLine e (formatNumber x) (.number x)

/-- The lines between the head and the end of a report. -/
inductive IsBody (e : Expression) : List Binding → List Float → List Text → Prop
  /-- Nothing was given. -/
  | standard {line : Text} (h : IsLine e [] .nowhere line) : IsBody e [] [] [line]
  | numbers {x : Float} {xs : List Float} {lines : List Text}
      (h : AreNumberLines e (x :: xs) lines) : IsBody e [] (x :: xs) lines
  /-- The bindings are one dictionary, in which the expression is evaluated as it stands. -/
  | dictionary {b : Binding} {bs scope : List Binding} {line : Text} {xs : List Float}
      {lines : List Text} (hscope : Scope.IsDictionary (b :: bs) scope)
      (hline : IsLine e
        (List.intercalate ", ".toList
          (scope.map fun c => c.name ++ " = ".toList ++ formatNumber c.value))
        (.within scope) line)
      (h : AreNumberLines e xs lines) : IsBody e (b :: bs) xs (line :: lines)

theorem pointLine_eq_ok_iff : pointLine e p = .ok line ↔ IsLine e (label p) p line := by
  rw [pointLine, map_eq_ok_iff]
  exact exists_congr fun y => and_congr_right fun _ => eq_comm

theorem mapM_number_eq_ok_iff :
    (xs.map Point.number).mapM (pointLine e) = .ok lines ↔ AreNumberLines e xs lines := by
  rw [mapM_eq_ok_iff, List.forall₂_map_left_iff]
  simp only [pointLine_eq_ok_iff]
  rfl

/-- The points that a report on bindings and numbers is about. -/
def givenPoints (bs : List Binding) (xs : List Float) : List Point :=
  if (CommandLine.givenScope bs ++ xs.map Point.number).isEmpty then [.nowhere]
  else CommandLine.givenScope bs ++ xs.map Point.number

theorem points?_eq {a : Arguments} (hxs : a.points = xs.map some)
    (hbs : a.bindings = bs.map some) : CommandLine.points? a = .ok (givenPoints bs xs) := by
  rw [CommandLine.points?, hxs, hbs, CommandLine.filledBindings?_map_some,
    CommandLine.filledNumbers?_map_some]
  rfl

/-- The lines about the given points are the one body that a report can have. -/
theorem isBody_iff :
    IsBody e bs xs body ↔ (givenPoints bs xs).mapM (pointLine e) = .ok body := by
  constructor
  · intro h
    cases h with
    | standard h => exact mapM_eq_ok_iff.2 (.cons (pointLine_eq_ok_iff.2 h) .nil)
    | numbers h => exact mapM_number_eq_ok_iff.2 h
    | @dictionary b bs scope line xs lines hscope hline h =>
      obtain rfl := Scope.isDictionary_iff.1 hscope
      have hrest := mapM_eq_ok_iff.1 (mapM_number_eq_ok_iff.2 h)
      exact mapM_eq_ok_iff.2 (.cons (pointLine_eq_ok_iff.2 hline) hrest)
  · intro h
    cases bs with
    | nil =>
      cases xs with
      | nil =>
        obtain ⟨line, rest, hline, hrest, rfl⟩ :=
          List.forall₂_cons_left_iff.1 (mapM_eq_ok_iff.1 h)
        obtain rfl := List.forall₂_nil_left_iff.1 hrest
        exact .standard (pointLine_eq_ok_iff.1 hline)
      | cons x xs => exact .numbers (mapM_number_eq_ok_iff.1 h)
    | cons b bs =>
      obtain ⟨line, rest, hline, hrest, rfl⟩ :=
        List.forall₂_cons_left_iff.1 (mapM_eq_ok_iff.1 h)
      exact .dictionary (Scope.isDictionary_ofEntries (b :: bs)) (pointLine_eq_ok_iff.1 hline)
        (mapM_number_eq_ok_iff.1 (mapM_eq_ok_iff.2 hrest))

/-- Over the standard functions every report has a body. -/
theorem exists_isBody (h : e.table = Function.standard) (bs : List Binding) (xs : List Float) :
    ∃ body, IsBody e bs xs body := by
  simp only [isBody_iff]
  cases hlines : (givenPoints bs xs).mapM (pointLine e) with
  | ok body => exact ⟨body, rfl⟩
  | error fault =>
    obtain ⟨-, p, -, -, -, hp⟩ := mapM_eq_error_iff.1 hlines
    obtain ⟨y, hy⟩ := Expression.exists_evaluate h p
    rw [pointLine, hy] at hp
    cases hp

end Report

/-! ## Runs -/

namespace CommandLine

/-- The lines of a report: a head of two lines, the body and an end. -/
def reportLines (e : Expression) (body : List Text) : List Text :=
  ("f(x) = ".toList ++ e.render) :: ("rpn: ".toList ++ e.renderRpn) :: body ++ ["===".toList]

/-- A run prints a report on what was collected. -/
theorem exists_run_eq (he : Expression.ofText? Function.standard .dropped t = .ok e)
    (hcollected : AreCollected ts t xs bs) :
    ∃ body, Report.IsBody e bs xs body ∧ run ts = .ok ⟨0, reportLines e body, none⟩ := by
  let a : Arguments :=
    { expression := some (some t), points := xs.map some, bindings := bs.map some }
  obtain ⟨htable, -⟩ := Expression.text_of_ofText? he
  obtain ⟨body, hbody⟩ := Report.exists_isBody htable bs xs
  refine ⟨body, hbody, ?_⟩
  have hlines : Report.lines e (Report.givenPoints bs xs) = .ok (reportLines e body) := by
    rw [Report.lines, Report.isBody_iff.1 hbody]
    rfl
  have hpoints : points? a = .ok (Report.givenPoints bs xs) := Report.points?_eq rfl rfl
  have hanswer : answer a = .ok (reportLines e body) := by
    -- There is an expression and no range.
    show (Expression.ofText? Function.standard .dropped t).bind
      (fun e => (points? a).bind (Report.lines e)) = _
    rw [he, hpoints, ← hlines]
    rfl
  have hlevel : LogLevel.check? a.logLevel = .ok () := LogLevel.check?_usual
  have hrequest : Request.ofArguments? ts = .ok (.run a) := hcollected
  simp only [run, hrequest, hlevel, hanswer]
  rfl

/-- Arguments that give the same in another order are run alike. -/
theorem run_eq_of_gives (h : Gives t true ts xs bs) (h' : Gives t true ts' xs bs) :
    run ts' = run ts := by
  rw [run, run, h.ofArguments?, h'.ofArguments?]

/-- The program prints what the library answers. For every text that writes an expression with the
    standard functions, and arguments that give this text once and any numbers and bindings
    around it, in any order:

    if the arguments are collected in order, the program ends well and prints the expression,
    its reverse Polish order, a line about the dictionary of the bindings if there are any, a
    line about each of the numbers, or else one about the standard scope, and a closing line;

    the arguments are collected in order unless the text is `--`;

    whatever the text, the arguments for numbers may change places with the others. -/
theorem run_prints_answers (he : Expression.ofText? Function.standard .dropped t = .ok e)
    (h : Gives t true ts xs bs) :
    (AreCollected ts t xs bs →
      ∃ body, Report.IsBody e bs xs body ∧ run ts = .ok ⟨0, reportLines e body, none⟩) ∧
    (AreCollected ts t xs bs ↔ t ≠ ['-', '-']) ∧
    ∀ ts', ts'.filter isPointOption = ts.filter isPointOption →
      (ts'.filter fun u => !isPointOption u) = (ts.filter fun u => !isPointOption u) →
        run ts' = run ts := by
  refine ⟨exists_run_eq he, h.areCollected_iff, fun ts' hpoints hothers => ?_⟩
  have h' : Gives t true ts' xs bs := by
    rw [gives_iff_filter, hpoints, hothers]
    exact h.filter
  exact run_eq_of_gives h h'

/-- With two numbers and two bindings of `a` around the expression, the program prints two lines
    about the numbers behind one about the dictionary. The two spellings of the name are one,
    since blanks around it do not count, and the second binding counts. The program prints the
    same if the numbers come last. -/
theorem run_prints_answers_interleaved :
    ∃ e, Expression.ofText? Function.standard .dropped "x+a".toList = .ok e ∧
      run ["--x=2".toList, "--var=a=1".toList, "--expr=x+a".toList, "--x=3".toList,
          "--var= a =5".toList] =
        .ok ⟨0, ["f(x) = x + a".toList, "rpn: x a +".toList, "f(a = 5) = 5".toList,
          "f(2) = 2".toList, "f(3) = 3".toList, "===".toList], none⟩ ∧
      run ["--var=a=1".toList, "--expr=x+a".toList, "--var= a =5".toList, "--x=2".toList,
          "--x=3".toList] =
        .ok ⟨0, ["f(x) = x + a".toList, "rpn: x a +".toList, "f(a = 5) = 5".toList,
          "f(2) = 2".toList, "f(3) = 3".toList, "===".toList], none⟩ := by
  let tokens : List Token := [.reference ['x'], .ofOperator (.binary .add), .reference ['a']]
  let e : Expression := ⟨Function.standard, "x+a".toList, tokens, rfl⟩
  have he : Expression.ofText? Function.standard .dropped "x+a".toList = .ok e :=
    Expression.ofText?_eq_ok_iff.2 ⟨rfl, by decide⟩
  have hone : readLoosely? ['1'] = some 1.0 := by decide +kernel
  have htwo : readLoosely? ['2'] = some 2.0 := by decide +kernel
  have hthree : readLoosely? ['3'] = some 3.0 := by decide +kernel
  have hfive : readLoosely? ['5'] = some 5.0 := by decide +kernel
  have hgives : Gives "x+a".toList true ["--x=2".toList, "--var=a=1".toList, "--expr=x+a".toList,
      "--x=3".toList, "--var= a =5".toList] [2.0, 3.0] [⟨['a'], 1.0⟩, ⟨['a'], 5.0⟩] := by
    show Gives "x+a".toList true [pointOption ['2'], bindingOption ['a'] ['1'],
      expressionOption "x+a".toList, pointOption ['3'], bindingOption " a ".toList ['5']] _ _
    exact .point htwo (.binding (by decide) (by decide) (isBare_iff.2 rfl) hone
      (.expression (.point hthree
        (.binding (by decide) (by decide) (isBare_iff.2 rfl) hfive .nil))))
  obtain ⟨hprints, hcollected, hmoved⟩ := run_prints_answers he hgives
  obtain ⟨body, hbody, hrun⟩ := hprints (hcollected.2 (by decide))
  -- The addition is skipped everywhere, since one of the two variables has no number.
  have hline : ∀ {label p line y}, e.evaluate p = .ok y → Report.IsLine e label p line →
      line = "f(".toList ++ label ++ ") = ".toList ++ formatNumber y := by
    rintro label p line y hy ⟨y', hy', rfl⟩
    rw [hy] at hy'
    cases hy'
    rfl
  have hnames : formatNumber 2.0 = ['2'] ∧ formatNumber 3.0 = ['3'] ∧ formatNumber 5.0 = ['5'] := by
    decide +kernel
  obtain ⟨hname2, hname3, hname5⟩ := hnames
  cases hbody with
  | @dictionary b bs scope first xs lines hscope hfirst hnumbers =>
    obtain rfl := Scope.isDictionary_iff.1 hscope
    obtain ⟨second, _, hsecond, hrest, rfl⟩ := List.forall₂_cons_left_iff.1 hnumbers
    obtain ⟨third, _, hthird, hnil, rfl⟩ := List.forall₂_cons_left_iff.1 hrest
    obtain rfl := List.forall₂_nil_left_iff.1 hnil
    have hlines : reportLines e [first, second, third] =
        ["f(x) = x + a".toList, "rpn: x a +".toList, "f(a = 5) = 5".toList, "f(2) = 2".toList,
          "f(3) = 3".toList, "===".toList] := by
      have hentries : Scope.ofEntries [⟨['a'], 1.0⟩, ⟨['a'], 5.0⟩] = [⟨['a'], 5.0⟩] := rfl
      rw [hline (y := 5.0) rfl hfirst, hline (y := 2.0) rfl hsecond, hline (y := 3.0) rfl hthird,
        hentries]
      simp only [List.map, hname2, hname3, hname5]
      rfl
    rw [hlines] at hrun
    exact ⟨e, he, hrun, (hmoved _ (by decide) (by decide)).trans hrun⟩

end CommandLine

end Formula
