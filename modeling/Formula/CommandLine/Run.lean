/-
  Formula.CommandLine.Run

  A whole run of the program: from its arguments to what it prints and its exit code.

    * `CommandLine.answer a` — the lines that a run with the settings `a` prints: the
      demonstration if there is no expression, a table if there is a range, and a
      report otherwise.
    * `CommandLine.run ts` — the exit code, the printed lines and, if the arguments are
      refused, the wording of the refusal. A run fails if the level of the log cannot
      be used, the expression holds a piece that cannot be converted, the range has no
      usable number of points, or a setting that is needed was left unfilled.
-/
import Formula.CommandLine.Arguments
import Formula.CommandLine.Help
import Formula.CommandLine.Report
import Formula.Function.Checked
import Formula.Samples
import Formula.Table.Layout

namespace Formula.CommandLine

/-- How a run ends. -/
structure Exit where
  code : Nat
  lines : List Text
  refusal : Option Text
  deriving DecidableEq, Repr

def joinLines (lines : List Text) : Text :=
  lines.flatMap (· ++ ['\n'])

/-- The bindings that were given, none of them unfilled. -/
def filledBindings? (bs : List (Option Binding)) : Except Fault (List Binding) :=
  match bs.mapM id with
  | some filled => .ok filled
  | none => .error (.unfilledBinding (bs.findIdx Option.isNone))

/-- The numbers that were given, none of them unfilled. -/
def filledNumbers? (xs : List (Option Float)) : Except Fault (List Float) :=
  match xs.mapM id with
  | some filled => .ok filled
  | none => .error .unfilledPoint

/-- The scope of the bindings that were given, if there are any. -/
def givenScope (bs : List Binding) : List Point :=
  if bs.isEmpty then [] else [.within (Scope.ofEntries bs)]

/-- The points of a report: the scope of all bindings, then every number; the
    standard scope if neither was given. -/
def points? (a : Arguments) : Except Fault (List Point) :=
  (filledBindings? a.bindings).bind fun bs =>
  (filledNumbers? a.points).map fun xs =>
    let given := givenScope bs ++ xs.map Point.number
    if given.isEmpty then [.nowhere] else given

/-- The table over a range. -/
def tableLines (e : Expression) (start stop count : Float) : Except Fault (List Text) :=
  (Checked.truncated count).bind fun n =>
  (evenlySpaced start stop n).bind fun xs =>
  (tabulate e xs defaultVariable Scope.standard).map Table.layout

/-- The lines that a run prints. -/
def answer (a : Arguments) : Except Fault (List Text) :=
  match a.expression with
  | none => Report.demonstration
  | some none => .error .unfilledExpression
  | some (some t) =>
    (Expression.ofText? Function.standard .dropped t).bind fun e =>
      match a.range with
      | some (start, stop, count) => tableLines e start stop count
      | none => (points? a).bind (Report.lines e)

def run (ts : List Text) : Except Fault Exit :=
  match Request.ofArguments? ts with
  | .error refusal => .ok ⟨2, [], some refusal.message⟩
  | .ok .help => .ok ⟨0, Help.text, none⟩
  | .ok (.run a) =>
    (LogLevel.check? a.logLevel).bind fun _ =>
      (answer a).map fun lines => ⟨0, lines, none⟩

/-! ## Settings that are all filled in -/

/-- The values of a list without gaps. -/
theorem mapM_id_map_some {α : Type} (xs : List α) : (xs.map some).mapM id = some xs := by
  induction xs with
  | nil => rfl
  | cons x xs ih => simp [ih]

@[simp] theorem filledBindings?_map_some (bs : List Binding) :
    filledBindings? (bs.map some) = .ok bs := by
  simp only [filledBindings?, mapM_id_map_some]

@[simp] theorem filledNumbers?_map_some (xs : List Float) :
    filledNumbers? (xs.map some) = .ok xs := by
  simp only [filledNumbers?, mapM_id_map_some]

end Formula.CommandLine
