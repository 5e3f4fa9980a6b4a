import FiniteDomain.Model.Validation
import FiniteDomain.Network.Build
import FiniteDomain.Search.Backtracking
import FiniteDomain.Solution.Snapshot

/-!
# Solving models

A model is validated, its network built and searched, and the solution read back. A model that is
not valid, or that has no solution, is an answer; only a solve that had to be given up is an error.

* `Model.solve`: solves a model, with an optional limit on the number of search nodes.
-/

namespace FiniteDomain

/-- How a solve ended. -/
inductive Status where
  /-- There is a solution. -/
  | success
  /-- There is none. -/
  | fail
  /-- The model is not valid and was not searched. -/
  | invalidModel
  deriving DecidableEq

/-- The name of a status. -/
def Status.text : Status → String
  | success => "Success"
  | fail => "Fail"
  | invalidModel => "InvalidModel"

/-- The answer of a solve. -/
structure SolveResult where
  /-- How the solve ended. -/
  status : Status
  /-- The solution; empty unless there is one. -/
  snapshot : Snapshot
  /-- The counters of the search. -/
  statistics : Statistics
  /-- The findings on a model that is not valid. -/
  findings : List Finding

/-- Whether a solution was found. -/
def SolveResult.isSuccess (r : SolveResult) : Bool :=
  r.status == .success

/-- The answer that a finished search gives. -/
def Network.conclude (net : Network) (outcome : Option Assignment × Statistics) :
    Except SolveError SolveResult :=
  match outcome with
  | (some a, statistics) => do
    let snapshot ← Snapshot.extract net a
    return ⟨.success, snapshot, statistics, []⟩
  | (none, statistics) => .ok ⟨.fail, .empty, statistics, []⟩

/-- Solves a model. A valid model without variables is solved by the empty snapshot. -/
def Model.solve (m : Model) (limit : Option Nat) : Except SolveError SolveResult :=
  let report := m.validate
  if !report.isValid then .ok ⟨.invalidModel, .empty, .zero, report.findings⟩
  else if m.isEmpty then .ok ⟨.success, .empty, .zero, []⟩
  else do
    let net ← Network.build m
    let outcome ← Search.search net limit
    net.conclude outcome

end FiniteDomain
