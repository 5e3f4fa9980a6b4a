import FiniteDomain.Command.Arguments
import FiniteDomain.Command.Outcome
import FiniteDomain.Json.ModelForm
import FiniteDomain.Json.Reader
import FiniteDomain.Json.SnapshotForm
import FiniteDomain.Json.Writer
import FiniteDomain.Solution.Solve

/-!
# The command that solves a model file

Solves a model stored as JSON and prints the solution as JSON, compact or indented.

* `SolveFile.run`: the command, given the contents of the file.
-/

namespace FiniteDomain.Command.SolveFile

/-- The arguments of the command. -/
structure Request where
  /-- The path of the model file. -/
  path : String
  /-- Whether to indent the solution. -/
  pretty : Bool
  deriving DecidableEq

/-- Reads the arguments of the command. -/
def parse? (arguments : List String) : Option Request := do
  let a ← Arguments.parse? ⟨["--pretty"], []⟩ arguments
  match a.positional with
  | [path] => if path.isEmpty then none else some ⟨path, a.flags.contains "--pretty"⟩
  | _ => none

/-- The outcome when the file does not exist. -/
def missingFile : Outcome :=
  ⟨1, "", "Error: " ++
    diagnosticRecord "Os"
      [("code", "2"), ("kind", "NotFound"), ("message", "\"No such file or directory\"")] ++ "\n"⟩

/-- The outcome when the file is not a JSON model. -/
def malformedFile : Outcome :=
  ⟨1, "", "json\n"⟩

/-- The outcome of a finished solve. -/
def report (request : Request) (result : SolveResult) : Outcome :=
  match result.status with
  | .success =>
    let solution := result.snapshot.toJson
    ⟨0, (if request.pretty then solution.pretty else solution.compact) ++ "\n", ""⟩
  | .fail =>
    ⟨2, "", "No solution after " ++ Decimal.ofNat result.statistics.nodes ++ " nodes\n"⟩
  | .invalidModel => ⟨1, "", String.join (result.findings.map fun f => f.text ++ "\n")⟩

/-- Runs the command on a request and the contents of the file, if there is such a file. -/
def run (request : Request) (contents : Option String) : Outcome :=
  match contents with
  | none => missingFile
  | some text =>
    match (Json.parse text).bind Model.ofJson? with
    | none => malformedFile
    | some m =>
      match m.solve none with
      | .ok result => report request result
      | .error e => .failed "" e

end FiniteDomain.Command.SolveFile
