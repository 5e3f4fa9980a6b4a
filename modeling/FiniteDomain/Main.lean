import FiniteDomain.Command.Queens
import FiniteDomain.Command.SolveFile

/-!
# The command line

Two commands: `queens` places queens on a board, `solve` solves a model file.
-/

namespace FiniteDomain.Command

/-- The contents of a file, if it can be read. -/
def readContents (path : String) : IO (Option String) := do
  try
    return some (← IO.FS.readFile path)
  catch _ =>
    return none

/-- The outcome of the command named by the first argument. -/
def runCommand : List String → IO Outcome
  | "queens" :: arguments => return Queens.execute arguments
  | "solve" :: arguments =>
    match SolveFile.parse? arguments with
    | none => return .usage
    | some request => return SolveFile.run request (← readContents request.path)
  | _ => return .usage

end FiniteDomain.Command

/-- Runs a command, prints its outputs and exits with its code. -/
def main (arguments : List String) : IO UInt32 := do
  let outcome ← FiniteDomain.Command.runCommand arguments
  (← IO.getStdout).putStr outcome.stdout
  (← IO.getStderr).putStr outcome.stderr
  return UInt32.ofNat outcome.exit
