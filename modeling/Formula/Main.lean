/-
  Formula.Main

  The program: arguments in, text out. A refusal goes to standard error below the
  usage lines; a failure goes there by its message.
-/
import Formula.CommandLine.Run

namespace Formula.Program

/-- Writes lines to a stream. -/
def write (stream : IO.FS.Stream) (lines : List Text) : IO Unit :=
  stream.putStr (String.ofList (CommandLine.joinLines lines))

/-- The lines that report a refusal of the arguments. -/
def complaint (refusal : Text) : List Text :=
  Help.usage ++ [Help.program ++ ": error: ".toList ++ refusal]

end Formula.Program

open Formula in
def main (arguments : List String) : IO UInt32 := do
  match CommandLine.run (arguments.map String.toList) with
  | .ok exit =>
    Program.write (← IO.getStdout) exit.lines
    Program.write (← IO.getStderr) ((exit.refusal.map Program.complaint).getD [])
    return exit.code.toUInt32
  | .error fault =>
    Program.write (← IO.getStderr) [fault.message]
    return 1
