import FiniteDomain.Expression.Constraint
import FiniteDomain.Expression.Domain
import FiniteDomain.Text.Decimal

/-!
# Writing expressions

The text of constraint expressions and their parts. Terms and comparisons are separated by single
spaces, counters and ranges of a repeater clause by commas alone.
-/

namespace FiniteDomain

/-- A character in single quotes. -/
def quoteChar (c : Char) : String :=
  String.ofList ['\'', c, '\'']

/-- An item in double quotes. -/
def quoteItem (item : String) : String :=
  "\"" ++ item ++ "\""

/-- A number in decimal, or the counter's name. -/
def Index.render : Index → String
  | .literal value => Decimal.ofInt64 value
  | .counter name => name

/-- A bound, followed by its offset unless that is 0; a negative offset brings its own sign. -/
def Bound.render (b : Bound) : String :=
  if b.offset = 0 then b.value.render
  else if 0 < b.offset then b.value.render ++ "+" ++ Decimal.ofInt64 b.offset
  else b.value.render ++ Decimal.ofInt64 b.offset

/-- A constant as it is written in a constraint. -/
def Literal.render : Literal → String
  | .integer value => Decimal.ofInt64 value
  | .character c => quoteChar c
  | .item text => quoteItem text

/-- A reference as it is written in a constraint. -/
def Reference.render : Reference → String
  | .singleton name => name
  | .element aggregate subscript => aggregate ++ "[" ++ subscript.render ++ "]"
  | .field bucket instanceAt label => bucket ++ "[" ++ instanceAt.render ++ "]." ++ label

/-- An operand as it is written in a constraint. -/
def Operand.render : Operand → String
  | .literal value => value.render
  | .reference r => r.render

/-- An adjustment with the space that precedes it. -/
def Adjustment.render (a : Adjustment) : String :=
  match a.sign with
  | .plus => " + " ++ a.amount.render
  | .minus => " - " ++ a.amount.render

/-- One side of a comparison. -/
def Term.render (t : Term) : String :=
  match t.adjustment with
  | none => t.operand.render
  | some a => t.operand.render ++ a.render

/-- A counter's range: both ends, or the upper one alone. -/
def Counter.renderRange (c : Counter) : String :=
  match c.low with
  | some low => low.render ++ ".." ++ c.high.render
  | none => c.high.render

/-- A repeater clause with the space that precedes it. -/
def renderRepeater (counters : List Counter) : String :=
  " | " ++ ",".intercalate (counters.map Counter.name) ++ " in " ++
    ",".intercalate (counters.map Counter.renderRange)

/-- A constraint expression. -/
def ConstraintExpr.render (e : ConstraintExpr) : String :=
  let relation := e.left.render ++ " " ++ e.comparison.symbol ++ " " ++ e.right.render
  match e.repeater with
  | none => relation
  | some counters => relation ++ renderRepeater counters

/-- A table slice. -/
def Slice.render (s : Slice) : String :=
  s.table ++ "!" ++ Decimal.ofUInt64 s.column ++ ":" ++ Decimal.ofUInt64 s.row

end FiniteDomain
