import FiniteDomain.Network.Basic
import FiniteDomain.Search.Statistics
import FiniteDomain.Text.Grid
import FiniteDomain.Text.Rounding

/-!
# The table of search statistics

One row for each constraint that was checked, those with most checks first and constraints with
equally many in the order of their numbers.
-/

namespace FiniteDomain.Statistics

/-- The names of the columns. -/
def columns : List String :=
  ["Constraint", "ID", "Description", "Checks", "Rejections", "Rejection Rate"]

/-- The order of the rows. -/
def busier (a b : Nat × Tally) : Bool :=
  decide (b.2.checks < a.2.checks) || (a.2.checks == b.2.checks && decide (a.1 ≤ b.1))

/-- The row of a constraint. -/
def row (net : Network) (entry : Nat × Tally) : List String :=
  let (name, description) := match net.constraints[entry.1]? with
    | some c => (c.name, c.description)
    | none => ("", "")
  [name, Decimal.ofNat entry.1, description, Decimal.ofNat entry.2.checks,
    Decimal.ofNat entry.2.rejections, Rounding.ratioText entry.2.rejections entry.2.checks]

/-- The table of the counters of each constraint of a network. -/
def table (net : Network) (s : Statistics) : String :=
  Grid.render columns.length (columns :: (s.toList.mergeSort busier).map (row net))

end FiniteDomain.Statistics
