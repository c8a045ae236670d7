/-
  Formula.CommandLine.Arguments

  The arguments of the command line, read in two passes. The first decides for each
  argument by itself whether it is a flag or an operand, the second gives flags
  their values.

    * `Word.ofText? t` — what one argument is. A flag may be shortened to any
      beginning that fits no other flag, and a value may be attached behind `=`. What
      begins with `-` is an operand all the same if it looks like a negative number
      or holds a space.
    * `Request.ofArguments? ts` — what the arguments ask for: the help text, or a run
      with settings.
    * `UsageError.message` — the wording of a refusal.

  The first refusal counts, but an ambiguous flag is refused before all others, and
  arguments that belong to no flag after all others. Behind an argument `--` all
  arguments are operands. A value `--`, which can only be attached, leaves its setting
  unfilled: the setting is given and holds nothing. There are two conventions for such a
  value. This is the older one, which drops `--` from whatever a flag is given; under the
  newer one it is a value like any other.
-/
import Formula.CommandLine.Flag
import Formula.CommandLine.LogLevel
import Formula.Decimal.Reading
import Formula.Scope

namespace Formula

/-- Why arguments are refused. -/
inductive UsageError where
  | ambiguous (argument : Text) (matching : List Text)
  | unexpectedValue (flag : Flag) (value : Text)
  | missingValues (flag : Flag)
  | notNumber (flag : Flag) (value : Text)
  | notBinding (text : Text)
  | notBindingNumber (name value : Text)
  | unrecognized (arguments : List Text)
  deriving DecidableEq, Repr

namespace UsageError

/-- A refusal of what follows a flag. -/
def about (flag : Flag) (t : Text) : Text :=
  "argument ".toList ++ flag.title ++ ": ".toList ++ t

/-- How many values a flag expects, in words. -/
def expectation (flag : Flag) : Text :=
  match flag.valueNames.length with
  | 1 => "expected one argument".toList
  | n => "expected ".toList ++ decimal n ++ " arguments".toList

def message : UsageError → Text
  | ambiguous argument matching =>
    "ambiguous option: ".toList ++ argument ++ " could match ".toList ++
      List.intercalate ", ".toList matching
  | unexpectedValue flag value => about flag ("ignored explicit argument ".toList ++ quoted value)
  | missingValues flag => about flag (expectation flag)
  | notNumber flag value => about flag ("invalid float value: ".toList ++ quoted value)
  | notBinding text =>
    about (.setting .binding) ("expected name=value, got ".toList ++ quoted text)
  | notBindingNumber name value =>
    about (.setting .binding)
      ("invalid value for ".toList ++ quoted name ++ ": ".toList ++ quoted value)
  | unrecognized arguments => "unrecognized arguments: ".toList ++ spaced arguments

end UsageError

/-! ## Single arguments -/

/-- What one argument is. -/
inductive Word where
  | operand (t : Text)
  | separator
  | flag (f : Flag) (attached : Option Text)
  /-- The short help flag with at least one further letter behind it. -/
  | cluster (letters : Text)
  | unknown (t : Text)
  deriving DecidableEq, Repr

namespace Word

def cutAtEquals (t : Text) : Option (Text × Text) :=
  if t.contains '=' then some (t.takeWhile (· != '='), (t.dropWhile (· != '=')).tail) else none

/-- A text without one line feed at its end. -/
def withoutFinalNewline (t : Text) : Text :=
  if t.getLast? = some '\n' then t.dropLast else t

def isDigits (t : Text) : Bool :=
  (Numeral.allDigits? t).isSome

/-- Whether what follows a minus sign makes it a negative number: digits, or a point
    with digits behind it and perhaps before it. A line feed may end it. -/
def isNegativeNumber (t : Text) : Bool :=
  match digitRun (withoutFinalNewline t) with
  | (_, '.' :: fraction) => isDigits fraction
  | (ds, rest) => !ds.isEmpty && rest.isEmpty

/-- An argument that begins with `-` and names no flag. -/
def ofStray (t : Text) : Word :=
  if isNegativeNumber t.tail || t.contains ' ' then operand t else unknown t

/-- An argument that begins with two dashes and is no full spelling of a flag. -/
def ofShortened? (t : Text) : Except UsageError Word :=
  let cut := cutAtEquals t
  let name := (cut.map Prod.fst).getD t
  match Flag.completions name with
  | [] => .ok (ofStray t)
  | [(_, f)] => .ok (flag f (cut.map Prod.snd))
  | several => .error (.ambiguous t (several.map Prod.fst))

/-- The flag that an argument spells out before `=`, with what stands behind it. What
    stands there behind the short help flag counts as letters. An attached `--` is no
    exception here; it is dropped when the setting gets its value. -/
def ofAttached? (t : Text) : Option Word :=
  match cutAtEquals t with
  | some (['-', 'h'], c :: letters) => some (cluster (c :: letters))
  | some (name, value) => (Flag.ofSpelling? name).map fun f => flag f (some value)
  | none => none

/-- What an argument other than `--` is. -/
def ofText? (t : Text) : Except UsageError Word :=
  match Flag.ofSpelling? t with
  | some f => .ok (flag f none)
  | none =>
    match t with
    | '-' :: c :: rest =>
      match ofAttached? t with
      | some w => .ok w
      | none =>
        if c = '-' then ofShortened? t
        else if c = 'h' then .ok (cluster rest)
        else .ok (ofStray t)
    | _ => .ok (operand t)

def ofTexts? : List Text → Except UsageError (List Word)
  | [] => .ok []
  | t :: ts =>
    if t = ['-', '-'] then .ok (separator :: ts.map operand)
    else
      match ofText? t with
      | .error e => .error e
      | .ok w => (ofTexts? ts).map (w :: ·)

/-- The letters behind the short help flag that are refused, if any: each letter writes
    that flag once more, and from the first one that does not all are refused. -/
def refusedLetters? (letters : Text) : Option Text :=
  match letters.dropWhile (· = 'h') with
  | [] => none
  | refused => some refused

end Word

/-! ## Settings -/

/-- What a run is told. A value that was left unfilled is `none`. -/
structure Arguments where
  expression : Option (Option Text) := none
  points : List (Option Float) := []
  bindings : List (Option Binding) := []
  range : Option (Float × Float × Float) := none
  logLevel : Option Text := some LogLevel.usual
  /-- Arguments that belong to no flag. -/
  extras : List Text := []

/-- What the arguments ask for. -/
inductive Request where
  | help
  | run (arguments : Arguments)

/-- A number that follows a flag. -/
def numberAfter? (flag : Flag) (t : Text) : Except UsageError Float :=
  match readLoosely? t with
  | some x => .ok x
  | none => .error (.notNumber flag t)

def Binding.ofText? (t : Text) : Except UsageError Binding :=
  match Word.cutAtEquals t with
  | none => .error (.notBinding t)
  | some (name, value) =>
    if name = [] then .error (.notBinding t)
    else
      match readLoosely? value with
      | some x => .ok ⟨trimmed isBlank name, x⟩
      | none => .error (.notBindingNumber name value)

/-- The value of a setting, read from a text. The text `--` is dropped, by the older of the two
    conventions, and leaves the setting unfilled. -/
def unlessUnfilled {α : Type} (read : Text → Except UsageError α) (t : Text) :
    Except UsageError (Option α) :=
  if t = ['-', '-'] then .ok none else (read t).map some

namespace Arguments

def addExtra (a : Arguments) (t : Text) : Arguments :=
  { a with extras := a.extras ++ [t] }

/-- The arguments with the value of a setting. The last expression and the last level
    of the log count, points and bindings add up. -/
def set? (a : Arguments) (s : Setting) (t : Text) : Except UsageError Arguments :=
  match s with
  | .expression =>
    (unlessUnfilled .ok t).map fun e => { a with expression := some e }
  | .point =>
    (unlessUnfilled (numberAfter? (.setting .point)) t).map fun x =>
      { a with points := a.points ++ [x] }
  | .binding =>
    (unlessUnfilled Binding.ofText? t).map fun b => { a with bindings := a.bindings ++ [b] }
  | .logLevel =>
    (unlessUnfilled .ok t).map fun level => { a with logLevel := level }

/-- The arguments with a range; the last range counts. -/
def setRange? (a : Arguments) (start stop count : Text) : Except UsageError Arguments :=
  (numberAfter? .range start).bind fun x =>
  (numberAfter? .range stop).bind fun y =>
  (numberAfter? .range count).map fun z => { a with range := some (x, y, z) }

end Arguments

namespace Request

/-- What a list of words asks for, given the settings before it. -/
def ofWords? (a : Arguments) : List Word → Except UsageError Request
  | [] => if a.extras = [] then .ok (run a) else .error (.unrecognized a.extras)
  | .operand t :: rest => ofWords? (a.addExtra t) rest
  | .separator :: rest => ofWords? (a.addExtra ['-', '-']) rest
  | .unknown t :: rest => ofWords? (a.addExtra t) rest
  | .cluster letters :: _ =>
    match Word.refusedLetters? letters with
    | some value => .error (.unexpectedValue .help value)
    | none => .ok help
  | .flag .help none :: _ => .ok help
  | .flag .help (some value) :: _ => .error (.unexpectedValue .help value)
  | .flag (.setting s) (some value) :: rest =>
    (a.set? s value).bind fun a => ofWords? a rest
  | .flag (.setting s) none :: .operand value :: rest =>
    (a.set? s value).bind fun a => ofWords? a rest
  | .flag (.setting s) none :: _ => .error (.missingValues (.setting s))
  | .flag .range none :: .operand start :: .operand stop :: .operand count :: rest =>
    (a.setRange? start stop count).bind fun a => ofWords? a rest
  | .flag .range _ :: _ => .error (.missingValues .range)

/-- What the arguments ask for. -/
def ofArguments? (ts : List Text) : Except UsageError Request :=
  (Word.ofTexts? ts).bind (ofWords? {})

end Request

end Formula
