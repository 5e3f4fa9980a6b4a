import FiniteDomain.Command.Arguments
import FiniteDomain.Command.Outcome
import FiniteDomain.Model.Edit
import FiniteDomain.Search.StatisticsTable
import FiniteDomain.Solution.Solve

/-!
# The queens command

Places `n` queens on a board of `n` rows and columns so that no two share a column or a diagonal.
The unknowns are the columns of the queens, one for each row. The diagonals are ruled out by two
templates over all pairs of rows; a board of one row has none.

* `Queens.model`: the model of the board.
* `Queens.run`: the command.
-/

namespace FiniteDomain.Command.Queens

/-- The arguments of the command. -/
structure Request where
  /-- The number of rows and columns. -/
  size : Nat
  /-- The limit on the number of search nodes. -/
  limit : Option Nat
  /-- Whether to print the counters of each constraint. -/
  statistics : Bool
  deriving DecidableEq

/-- The board size when none is given. -/
def defaultSize : Nat :=
  8

/-- Reads the arguments of the command. A board of no rows is taken for one of one row. -/
def parse? (arguments : List String) : Option Request := do
  let a ← Arguments.parse? ⟨["--stats"], ["--node-limit"]⟩ arguments
  let size ← match a.positional with
    | [] => some defaultSize
    | [size] => readCount? size
    | _ => none
  let limit ← match a.values.lookup "--node-limit" with
    | none => some none
    | some value => (readCount? value).map some
  return ⟨max size 1, limit, a.flags.contains "--stats"⟩

/-- The template that rules out one kind of diagonal. -/
def diagonal (sign : String) (n : Nat) : String :=
  "cols[i] " ++ sign ++ " i <> cols[j] " ++ sign ++ " j | i,j in 2.." ++ Decimal.ofNat n ++
    ",1..i-1"

/-- The edits that declare the board. -/
def edits (n : Nat) : List Edit :=
  [.addAggregate "cols" n "1..size(cols)", .addAllDifferent "cols"] ++
    if 1 < n then [.addExpression (diagonal "+" n), .addExpression (diagonal "-" n)] else []

/-- The model of the board. -/
def model (n : Nat) : Except ModelError Model :=
  ((edits n).foldl Draft.edit (Draft.new (Decimal.ofNat n ++ " queens"))).build

/-- The row of a board with a queen in the given column, if the value is a column. -/
def row (n : Nat) : Value → String
  | .int column =>
    String.ofList ((List.replicate n '.').set (column.toNatClampNeg - 1) 'Q')
  | _ => String.ofList (List.replicate n '.')

/-- The board that a snapshot shows. -/
def board (n : Nat) (s : Snapshot) : String :=
  match s.aggregate? "cols" with
  | none => ""
  | some label => String.join (label.values.map fun value => row n value ++ "\n")

/-- The line about the counters of the search. -/
def summary (s : Statistics) : String :=
  "\nVisited " ++ Decimal.ofNat s.nodes ++ " nodes, " ++ Decimal.ofNat s.backtracks ++
    " backtracks, " ++ Decimal.ofNat s.checks ++ " consistency checks\n"

/-- What is printed when the search is over. -/
def report (request : Request) (net : Network) (outcome : Option Assignment × Statistics) :
    Except SolveError String := do
  let counters := summary outcome.2 ++
    if request.statistics then "\n" ++ outcome.2.table net ++ "\n" else ""
  match outcome.1 with
  | none => return counters ++ "\nNo solution found.\n"
  | some a =>
    let snapshot ← Snapshot.extract net a
    return counters ++ "\nFound a solution:\n" ++ board request.size snapshot

/-- Builds and searches the network of a model and reports the result. -/
def search (request : Request) (m : Model) : Except SolveError String := do
  let net ← Network.build m
  let outcome ← Search.search net request.limit
  report request net outcome

/-- Runs the command on a request. -/
def run (request : Request) : Outcome :=
  match model request.size with
  | .error e => ⟨1, "", "Invalid model: " ++ e.text ++ "\n"⟩
  | .ok m =>
    let heading := "Solving N-Queens for N=" ++ Decimal.ofNat request.size ++ "\n"
    match search request m with
    | .ok text => ⟨0, heading ++ text, ""⟩
    | .error e => .failed heading e

/-- Runs the command on its arguments. -/
def execute (arguments : List String) : Outcome :=
  match parse? arguments with
  | some request => run request
  | none => .usage

end FiniteDomain.Command.Queens
