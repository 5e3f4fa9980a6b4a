/-!
# Grids

Rows of text cells drawn with lines around them. A cell may have several lines; the other cells of
its row are blank there. Columns are as wide as their widest line, counted in characters.
-/

namespace FiniteDomain.Grid

/-- A line without the carriage return before its end; the line is given in reverse. -/
def dropReturn : List Char → List Char
  | '\r' :: rest => rest
  | line => line

/-- The lines of a text after `current`, the reverse of the line that is open. -/
def linesAfter (current : List Char) : List Char → List (List Char)
  | [] => if current.isEmpty then [] else [current.reverse]
  | c :: rest =>
    if c = '\n' then (dropReturn current).reverse :: linesAfter [] rest
    else linesAfter (c :: current) rest

/-- The lines of a text. A line break at the end opens no further line. -/
def lines (s : String) : List (List Char) :=
  linesAfter [] s.toList

/-- The length of the longest of some lines. -/
def longest (ls : List (List Char)) : Nat :=
  (ls.map List.length).foldl max 0

/-- The widths of the columns of some rows. -/
def widths (columns : Nat) (rows : List (List (List (List Char)))) : List Nat :=
  (List.range columns).map fun i => (rows.map fun row => longest (row[i]?.getD [])).foldl max 0

/-- A line filled up with spaces. -/
def pad (width : Nat) (line : List Char) : List Char :=
  line ++ List.replicate (width - line.length) ' '

/-- The line between rows. -/
def rule (widths : List Nat) : List Char :=
  (widths.flatMap fun w => '+' :: List.replicate (w + 2) '-') ++ ['+', '\n']

/-- One line of a row. -/
def rowLine (widths : List Nat) (row : List (List (List Char))) (i : Nat) : List Char :=
  (widths.zip row).flatMap (fun (w, cell) => '|' :: ' ' :: pad w (cell[i]?.getD []) ++ [' ']) ++
    ['|', '\n']

/-- A row with the line under it. -/
def rowText (widths : List Nat) (row : List (List (List Char))) : List Char :=
  let height := (row.map List.length).foldl max 0
  (List.range height).flatMap (rowLine widths row) ++ rule widths

/-- Rows of cells, each row with a line under it, and a line above the first. -/
def render (columns : Nat) (rows : List (List String)) : String :=
  let cells := rows.map fun row => row.map lines
  let ws := widths columns cells
  String.ofList (rule ws ++ cells.flatMap (rowText ws))

end FiniteDomain.Grid
