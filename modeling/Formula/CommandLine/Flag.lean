/-
  Formula.CommandLine.Flag

  The flags of the command line, one table for the reader of arguments and for the
  help text.

    * `Flag.spellings` — the texts that write a flag, the short one first.
    * `Flag.valueNames` — the names of the values that follow a flag.
    * `Flag.explanation` — what the help text says about a flag.
    * `Flag.bySpelling` — all spellings in the order of the table.
-/
import Formula.Text.Basic

namespace Formula

/-- The settings that one value follows. -/
inductive Setting where
  | expression
  | point
  | binding
  | logLevel
  deriving DecidableEq, Repr

/-- The flags. -/
inductive Flag where
  | help
  | setting (s : Setting)
  | range
  deriving DecidableEq, Repr

namespace Flag

/-- The flags in the order of the help text. -/
def all : List Flag :=
  [help, setting .expression, setting .point, setting .binding, range, setting .logLevel]

def spellings : Flag → List Text
  | help => ["-h".toList, "--help".toList]
  | setting .expression => ["--expr".toList]
  | setting .point => ["--x".toList]
  | setting .binding => ["--var".toList]
  | range => ["--range".toList]
  | setting .logLevel => ["--log_level".toList]

/-- The names of the values that follow a flag. -/
def valueNames : Flag → List Text
  | help => []
  | setting .expression => ["EXPR".toList]
  | setting .point => ["X".toList]
  | setting .binding => ["VAR".toList]
  | range => ["START".toList, "STOP".toList, "NUM".toList]
  | setting .logLevel => ["LOG_LEVEL".toList]

def explanation : Flag → Text
  | help => "show this help message and exit".toList
  | setting .expression =>
    "Expression to evaluate; runs the demo suite when omitted".toList
  | setting .point => "Value bound to x (repeatable); pi and e stay available".toList
  | setting .binding =>
    "Full variable binding name=value (repeatable); no defaults are merged".toList
  | range => "Tabulate the expression over NUM evenly spaced x values".toList
  | setting .logLevel => "Logging level (default: INFO)".toList

/-- The name of a flag in messages: its spellings with strokes between them. -/
def title (f : Flag) : Text :=
  List.intercalate ['/'] f.spellings

/-- All spellings with the flags they write. -/
def bySpelling : List (Text × Flag) :=
  all.flatMap fun f => f.spellings.map (·, f)

def ofSpelling? (t : Text) : Option Flag :=
  bySpelling.lookup t

/-- The spellings that begin with a text. -/
def completions (t : Text) : List (Text × Flag) :=
  bySpelling.filter fun entry => t.isPrefixOf entry.1

end Flag

end Formula
