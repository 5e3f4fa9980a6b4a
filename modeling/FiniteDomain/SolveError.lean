import FiniteDomain.Domain.Evaluation

/-!
# Errors of a solve

What can stop the construction of a network, a search or the reading of its result.

* `SolveError.text`: the errors as they are shown.
-/

namespace FiniteDomain

/-- Why an expression cannot be turned into a constraint. -/
inductive Unsupported where
  /-- Adding the term's offset to some key of the domain leaves the word. -/
  | overflow (term domain : String)
  /-- A constant has an adjustment. -/
  | adjustedLiteral (term : String)
  /-- The subtracted amount cannot be negated. -/
  | offsetOverflow (amount : Int64)
  /-- Items are compared with each other and not with a variable. -/
  | itemConstants (constraint : String)
  /-- A subscript is still a counter. -/
  | unexpandedSubscript (reference : String)
  /-- An adjustment is still a counter. -/
  | unexpandedAdjustment (counter : String)
  deriving DecidableEq

/-- The cause as it is shown. -/
def Unsupported.text : Unsupported → String
  | overflow term domain => "`" ++ term ++ "` overflows over the domain " ++ domain
  | adjustedLiteral term => "adjusted literal `" ++ term ++ "`"
  | offsetOverflow amount => "offset `-" ++ Decimal.ofInt64 amount ++ "` overflows"
  | itemConstants constraint =>
    "item literals compared without a variable in `" ++ constraint ++ "`"
  | unexpandedSubscript reference => "unexpanded counter in `" ++ reference ++ "`"
  | unexpandedAdjustment counter => "unexpanded counter `" ++ counter ++ "` in infix"

/-- Why a solve was given up. -/
inductive SolveError where
  /-- A constraint or a domain cannot be read. -/
  | parse (error : ParseError)
  /-- A domain cannot be evaluated. -/
  | domain (error : DomainError)
  /-- A value or a position does not belong to the domain. -/
  | unmappable (value domain : String)
  /-- A constraint is of a form that is not supported. -/
  | unsupported (cause : Unsupported)
  /-- A constraint refers to something that is not an unknown of the network. -/
  | unknownVariable (reference : String)
  /-- The search visited more nodes than allowed. -/
  | limitReached (limit : Nat)
  /-- A bucket is made of a bundle that does not exist. -/
  | missingBundle (bucket bundle : String)
  /-- An assignment gives an unknown no value. -/
  | unassigned (unknown : String)
  deriving DecidableEq

/-- The error as it is shown. -/
def SolveError.text : SolveError → String
  | parse error => error.text
  | domain error => error.text
  | unmappable value domainText =>
    "value `" ++ value ++ "` has no solver counterpart in domain " ++ domainText
  | unsupported cause => "unsupported expression: " ++ cause.text
  | unknownVariable reference => "reference to unknown variable `" ++ reference ++ "`"
  | limitReached limit => "search abandoned after visiting " ++ Decimal.ofNat limit ++ " nodes"
  | missingBundle bucket bundle =>
    "bucket `" ++ bucket ++ "` references missing bundle `" ++ bundle ++ "`"
  | unassigned unknown => "`" ++ unknown ++ "` has no assigned value"

namespace Domain

/-- The position of a value, or an error that names the value and the domain. -/
def positionOf (d : Domain) (value : Value) : Except SolveError Int64 :=
  match d.position? value with
  | some position => .ok position
  | none => .error (.unmappable value.text d.render)

/-- The value at a position, or an error that names the position and the domain. -/
def valueAt (d : Domain) (position : Int64) : Except SolveError Value :=
  match d.value? position with
  | some value => .ok value
  | none => .error (.unmappable (Decimal.ofInt64 position) d.render)

/-- The key of a constant, or an error that names the constant and the domain. -/
def literalKey (d : Domain) (literal : Literal) : Except SolveError Int64 :=
  match d.literalKey? literal with
  | some key => .ok key
  | none => .error (.unmappable literal.render d.render)

end Domain

end FiniteDomain
