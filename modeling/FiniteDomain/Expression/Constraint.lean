import FiniteDomain.Comparison

/-!
# Constraint expressions

A constraint expression compares two terms, each an operand with an optional adjustment, and may be
repeated over counters. Subscripts, adjustments and counter bounds are either numbers or counters.

* `ConstraintExpr.references`: the variables referred to, left side first.
* `ConstraintExpr.counterUses`: the counters used in subscripts and adjustments, left side first.
-/

namespace FiniteDomain

/-- A number, or a counter standing for one. -/
inductive Index where
  /-- A number. -/
  | literal (value : Int64)
  /-- A counter that a repeater clause declares. -/
  | counter (name : String)
  deriving DecidableEq

/-- The counter an index names, if it names one. -/
def Index.counter? : Index → Option String
  | .literal _ => none
  | .counter name => some name

/-- A constant operand. -/
inductive Literal where
  /-- A number. -/
  | integer (value : Int64)
  /-- A character in single quotes. -/
  | character (value : Char)
  /-- An item in double quotes. -/
  | item (value : String)
  deriving DecidableEq

/-- A reference to an unknown of a model. -/
inductive Reference where
  /-- A singleton, written `x` or `$x`. -/
  | singleton (name : String)
  /-- An element of an aggregate, written `xs[3]`. -/
  | element (aggregate : String) (subscript : Index)
  /-- A field of a bundle instance in a bucket, written `team[2].age`. -/
  | field (bucket : String) (instanceAt : Index) (field : String)
  deriving DecidableEq

namespace Reference

/-- The name of the variable that the reference is to. -/
def name : Reference → String
  | singleton name => name
  | element aggregate _ => aggregate
  | field bucket _ _ => bucket

/-- The subscript, if there is one. -/
def index? : Reference → Option Index
  | singleton _ => none
  | element _ subscript => some subscript
  | field _ instanceAt _ => some instanceAt

end Reference

/-- An operand of a comparison. -/
inductive Operand where
  /-- A constant. -/
  | literal (value : Literal)
  /-- A variable of the model. -/
  | reference (reference : Reference)
  deriving DecidableEq

/-- Whether an adjustment adds or subtracts. -/
inductive Sign where
  /-- The amount is added. -/
  | plus
  /-- The amount is subtracted. -/
  | minus
  deriving DecidableEq

/-- An amount added to an operand or subtracted from it. -/
structure Adjustment where
  /-- Added or subtracted. -/
  sign : Sign
  /-- The amount. -/
  amount : Index
  deriving DecidableEq

/-- One side of a comparison. -/
structure Term where
  /-- The operand. -/
  operand : Operand
  /-- What is added to it or subtracted from it. -/
  adjustment : Option Adjustment
  deriving DecidableEq

/-- One end of a counter's range, such as `8`, `i` or `i-1`. -/
structure Bound where
  /-- A number or a counter declared earlier. -/
  value : Index
  /-- What is added to it. -/
  offset : Int64
  deriving DecidableEq

/-- A declared counter with its range, both ends included. -/
structure Counter where
  /-- The counter's name. -/
  name : String
  /-- The lower end; a missing one stands for 1. -/
  low : Option Bound
  /-- The upper end. -/
  high : Bound
  deriving DecidableEq

/-- The bounds that a counter's range is written with, lower end first. -/
def Counter.bounds (c : Counter) : List Bound :=
  c.low.toList ++ [c.high]

/-- A constraint expression. -/
structure ConstraintExpr where
  /-- The left side. -/
  left : Term
  /-- The comparison between the sides. -/
  comparison : Comparison
  /-- The right side. -/
  right : Term
  /-- The counters that the comparison is repeated over, outermost first. -/
  repeater : Option (List Counter)
  deriving DecidableEq

/-- The variable that a term refers to, if it does. -/
def Term.reference? (t : Term) : Option Reference :=
  match t.operand with
  | .reference reference => some reference
  | .literal _ => none

/-- The counters that a term uses: in its subscript, then in its adjustment. -/
def Term.counterUses (t : Term) : List String :=
  ((t.reference?.bind Reference.index?).bind Index.counter?).toList ++
    ((t.adjustment.map Adjustment.amount).bind Index.counter?).toList

namespace ConstraintExpr

/-- A template is repeated over counters and stands for the constraints it expands to. -/
def isTemplate (e : ConstraintExpr) : Bool :=
  e.repeater.isSome

/-- The variables referred to, left side first. -/
def references (e : ConstraintExpr) : List Reference :=
  e.left.reference?.toList ++ e.right.reference?.toList

/-- The counters used in subscripts and adjustments, left side first. -/
def counterUses (e : ConstraintExpr) : List String :=
  e.left.counterUses ++ e.right.counterUses

end ConstraintExpr

end FiniteDomain
