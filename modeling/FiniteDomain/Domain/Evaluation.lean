import FiniteDomain.Domain.Basic
import FiniteDomain.Expression.DomainReader
import FiniteDomain.Repetition
import FiniteDomain.Table

/-!
# Evaluating domain expressions

A domain expression is evaluated in a context that knows shared domains, tables and the sizes of
aggregates. Evaluation refuses ranges without values, character ranges across the surrogate code
points, lists with repeated items, slices without cells, and ranges and slices of more than
`sizeLimit` values. Repeated cells of a table count once, at their first row.

* `Domain.evaluate`: the domain that an expression stands for.
* `DomainError.text`: the errors as they are shown.
-/

namespace FiniteDomain

/-- What domain expressions may refer to. -/
structure Context where
  /-- The expression of a shared domain. -/
  sharedDomain : String → Option String
  /-- A table by name. -/
  table : String → Option TableSource
  /-- The number of elements of an aggregate. -/
  aggregateSize : String → Option Nat

/-- Why a domain expression stands for no domain. -/
inductive DomainError where
  /-- There is no shared domain of this name. -/
  | unknownShared (name : String)
  /-- The shared domain refers to a shared domain itself. -/
  | nestedShared (name : String)
  /-- There is no function of this name. -/
  | unknownFunction (name : String)
  /-- The function does not take these arguments. -/
  | badArguments (name expected : String)
  /-- There is no aggregate of this name. -/
  | unknownAggregate (name : String)
  /-- One band is a number and the other a character. -/
  | mismatchedBands
  /-- The lower band is above the upper one. -/
  | emptyRange (range : String)
  /-- The domain has more values than the limit allows. -/
  | tooLarge (expression : String) (limit : UInt64)
  /-- The range has characters on both sides of the surrogate code points. -/
  | surrogateRange (range : String)
  /-- The expression of the shared domain cannot be read. -/
  | sharedSyntax (name : String) (error : ParseError)
  /-- There is no table of this name. -/
  | unknownTable (name : String)
  /-- The slice has no cells. -/
  | emptySlice (slice : String)
  /-- The list has this item more than once. -/
  | duplicateValue (value : String)
  deriving DecidableEq

/-- The error as it is shown. -/
def DomainError.text : DomainError → String
  | unknownShared name => "shared domain `" ++ name ++ "` does not exist"
  | nestedShared name => "shared domain `" ++ name ++ "` cannot refer to another shared domain"
  | unknownFunction name => "unknown function `" ++ name ++ "`"
  | badArguments name expected => "function `" ++ name ++ "` expects " ++ expected
  | unknownAggregate name => "`" ++ name ++ "` is not an aggregate variable"
  | mismatchedBands => "range bands must both be integers or both be characters"
  | emptyRange range => "range `" ++ range ++ "` contains no values"
  | tooLarge expression limit =>
    "domain `" ++ expression ++ "` has more than " ++ Decimal.ofUInt64 limit ++ " values"
  | surrogateRange range => "character range `" ++ range ++ "` spans the surrogate code points"
  | sharedSyntax name error => "shared domain `" ++ name ++ "` cannot be parsed: " ++ error.text
  | unknownTable name => "table `" ++ name ++ "` does not exist"
  | emptySlice slice => "table slice `" ++ slice ++ "` selects no values"
  | duplicateValue value => "value `" ++ value ++ "` appears more than once in the domain"

namespace Domain

/-- The largest number of values of a domain. -/
def sizeLimit : Nat :=
  1 <<< 20

/-- The last character before the surrogate code points. -/
def beforeSurrogates : Char :=
  '\ud7ff'

/-- The first character after the surrogate code points. -/
def afterSurrogates : Char :=
  '\ue000'

/-- The value of a function call. The only function is `size`, in letters of either case. -/
def evaluateCall (context : Context) (call : Call) : Except DomainError Int64 :=
  if call.function.toList.map Char.toLower = ['s', 'i', 'z', 'e'] then
    match call.arguments with
    | [.name aggregate] =>
      match context.aggregateSize aggregate with
      | some size => .ok (Int64.ofNat (min size Int64.maxValue.toNatClampNeg))
      | none => .error (.unknownAggregate aggregate)
    | _ => .error (.badArguments call.function "a single aggregate name")
  else .error (.unknownFunction call.function)

/-- The value of a band: an integer or a character. -/
def evaluateBand (context : Context) : Band → Except DomainError (Int64 ⊕ Char)
  | .integer value => .ok (.inl value)
  | .character c => .ok (.inr c)
  | .call call => (evaluateCall context call).map .inl

/-- The domain, unless it has more values than allowed. -/
def checkSize (expression : String) (d : Domain) : Except DomainError Domain :=
  if sizeLimit < d.size then .error (.tooLarge expression (UInt64.ofNat sizeLimit)) else .ok d

/-- The range between two bands. -/
def evaluateRange (context : Context) (low high : Band) : Except DomainError Domain := do
  let low ← evaluateBand context low
  let high ← evaluateBand context high
  match low, high with
  | .inl low, .inl high =>
    let d := intRange low high
    if low ≤ high then d.checkSize d.render else .error (.emptyRange d.render)
  | .inr low, .inr high =>
    let d := charRange low high
    if low ≤ high then
      if low ≤ beforeSurrogates ∧ afterSurrogates ≤ high then .error (.surrogateRange d.render)
      else d.checkSize d.render
    else .error (.emptyRange d.render)
  | _, _ => .error .mismatchedBands

/-- The list of the given items. -/
def evaluateList (items : List String) : Except DomainError Domain :=
  match (repetitions items).head? with
  | some item => .error (.duplicateValue item)
  | none => .ok (list items)

/-- The distinct cells of a table slice, in the order of their first rows. -/
def evaluateSlice (context : Context) (s : Slice) : Except DomainError Domain :=
  match context.table s.table with
  | none => .error (.unknownTable s.table)
  | some t =>
    match t.lookup s with
    | none | some [] => .error (.emptySlice s.render)
    | some cells => (table cells.eraseDups).checkSize s.render

/-- The domain of an expression, with shared domains left to `shared`. -/
def evaluateWith (shared : String → Except DomainError Domain) (context : Context) :
    DomainExpr → Except DomainError Domain
  | .range low high => evaluateRange context low high
  | .list items => evaluateList items
  | .shared name => shared name
  | .table slice => evaluateSlice context slice

/-- The domain of a shared domain, which must not refer to a shared domain itself. -/
def evaluateShared (context : Context) (name : String) : Except DomainError Domain :=
  match context.sharedDomain name with
  | none => .error (.unknownShared name)
  | some text =>
    match DomainExpr.parse text with
    | .error error => .error (.sharedSyntax name error)
    | .ok tree => evaluateWith (fun _ => .error (.nestedShared name)) context tree

/-- The domain that an expression stands for. -/
def evaluate (context : Context) (e : DomainExpr) : Except DomainError Domain :=
  evaluateWith (evaluateShared context) context e

end Domain

end FiniteDomain
