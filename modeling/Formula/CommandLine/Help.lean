/-
  Formula.CommandLine.Help

  The help text, laid out from the table of flags for a terminal 80 columns wide.

    * `fill width ws` — words set in lines of at most `width` characters, each line
      taking as many as fit. A word that is too wide stands alone.
    * `Help.usage` — the lines that show how the program is called.
    * `Help.text` — the whole help text.
-/
import Formula.CommandLine.Flag

namespace Formula

/-- The lines of words behind the line `line` that has been begun. -/
def fillFrom (width : Nat) (line : Text) : List Text → List Text
  | [] => [line]
  | w :: ws =>
    if line.length + 1 + w.length ≤ width then fillFrom width (line ++ ' ' :: w) ws
    else line :: fillFrom width w ws

/-- Words set in lines. -/
def fill (width : Nat) : List Text → List Text
  | [] => []
  | w :: ws => fillFrom width w ws

def words (t : Text) : List Text :=
  let cut := t.foldr
    (fun c (found : Text × List Text) =>
      if c = ' ' then ([], found.1 :: found.2) else (c :: found.1, found.2))
    ([], [])
  (cut.1 :: cut.2).filter (· ≠ [])

namespace Help

def program : Text := "main.py".toList

def summary : Text := "Shunting-Yard arithmetic expression evaluator".toList

def lineWidth : Nat := 78

def explanationColumn : Nat := 24

/-- A number of blanks. -/
def blanks (n : Nat) : Text :=
  List.replicate n ' '

/-- A flag as the usage lines show it. -/
def usageOf (f : Flag) : Text :=
  '[' :: spaced (f.spellings.take 1 ++ f.valueNames) ++ [']']

def usage : List Text :=
  let head := "usage: ".toList ++ program ++ [' ']
  match fill (lineWidth - head.length) (Flag.all.map usageOf) with
  | [] => [head]
  | first :: rest => (head ++ first) :: rest.map (blanks head.length ++ ·)

/-- How a flag is written: every spelling with its values. -/
def invocation (f : Flag) : Text :=
  List.intercalate ", ".toList (f.spellings.map fun s => spaced (s :: f.valueNames))

/-- The lines about a flag: its invocation and, from a fixed column, its explanation,
    which begins on the same line if the invocation leaves room. -/
def entry (f : Flag) : List Text :=
  let head := blanks 2 ++ invocation f
  let body := fill (lineWidth - explanationColumn) (words f.explanation)
  let indented := body.map (blanks explanationColumn ++ ·)
  if head.length + 2 ≤ explanationColumn then
    (head ++ blanks (explanationColumn - head.length) ++ body.headD []) :: indented.tail
  else head :: indented

def text : List Text :=
  usage ++ [[], summary, [], "options:".toList] ++ Flag.all.flatMap entry

end Help

end Formula
