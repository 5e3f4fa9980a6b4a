/-!
# Domain expressions

What a domain expression says once it has been read: a range between two bands, a list of items, the
name of a shared domain, or a slice of a table.
-/

namespace FiniteDomain

/-- An argument of a function call in a band. -/
inductive Argument where
  /-- A number. -/
  | integer (value : Int64)
  /-- A name, such as that of an aggregate. -/
  | name (name : String)
  deriving DecidableEq

/-- A function call in a band, such as `size(cols)`. -/
structure Call where
  /-- The function's name as written. -/
  function : String
  /-- The arguments in order. -/
  arguments : List Argument
  deriving DecidableEq

/-- One end of a range. -/
inductive Band where
  /-- A number. -/
  | integer (value : Int64)
  /-- A character in single quotes. -/
  | character (value : Char)
  /-- A function call. -/
  | call (call : Call)
  deriving DecidableEq

/-- A run of cells in a column of a named table, from a row to the last one. -/
structure Slice where
  /-- The table's name. -/
  table : String
  /-- The column, counted from 1. -/
  column : UInt64
  /-- The first row, counted from 1. -/
  row : UInt64
  deriving DecidableEq

/-- A domain expression. -/
inductive DomainExpr where
  /-- All values from one band to another. -/
  | range (low high : Band)
  /-- The items given, in the order given. -/
  | list (items : List String)
  /-- The shared domain of this name. -/
  | shared (name : String)
  /-- The cells of a table slice. -/
  | table (slice : Slice)
  deriving DecidableEq

end FiniteDomain
