import FiniteDomain.Expression.Domain
import FiniteDomain.Text.Blank

/-!
# Tables

Named rows of text cells that table slices select from. Rows may have different lengths.

* `TableSource`: what evaluation needs to know of a table.
* `Table.source`: a table as a source of cells.
-/

namespace FiniteDomain

/-- A table of text cells. -/
structure Table where
  /-- The table's name. -/
  name : String
  /-- The rows, each with its cells. -/
  rows : List (List String)
  deriving DecidableEq

/-- The cells of a slice's column from its row to the last one, trimmed, in row order; rows without
that column and blank cells are skipped. `none` when the slice starts outside the table. -/
def Table.lookup (t : Table) (s : Slice) : Option (List String) :=
  if s.column = 0 ∨ s.row = 0 ∨ t.rows.length < s.row.toNat then none
  else
    some <| ((t.rows.drop (s.row.toNat - 1)).filterMap fun row => row[s.column.toNat - 1]?)
      |>.map Text.trim |>.filter fun cell => !cell.isEmpty

/-- A supplier of cells for table slices, by a table or by anything else. -/
structure TableSource where
  /-- The name of the table. -/
  name : String
  /-- The cells that a slice selects, in row order; `none` when the slice addresses nothing. -/
  lookup : Slice → Option (List String)

/-- A table supplies the cells that its slices select. -/
def Table.source (t : Table) : TableSource :=
  ⟨t.name, t.lookup⟩

end FiniteDomain
