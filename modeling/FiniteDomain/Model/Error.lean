import FiniteDomain.Text.Decimal

/-!
# Rejected edits

Why an edit of a model is rejected, and the three kinds of variables that the reasons speak of.

* `ModelError.text`: the errors as they are shown.
-/

namespace FiniteDomain

/-- The kinds of variables of a model. -/
inductive Kind where
  /-- One unknown. -/
  | singleton
  /-- An array of unknowns with one domain. -/
  | aggregate
  /-- Copies of a bundle. -/
  | bucket
  deriving DecidableEq

/-- The kind with its article. -/
def Kind.text : Kind → String
  | singleton => "a singleton"
  | aggregate => "an aggregate"
  | bucket => "a bucket"

/-- Why an edit of a model is rejected. -/
inductive ModelError where
  /-- The name is blank. -/
  | emptyName
  /-- The expression given for `owner` is blank. -/
  | emptyExpression (owner : String)
  /-- The name is taken. -/
  | duplicateName (name : String)
  /-- There is no variable of this name. -/
  | unknownVariable (name : String)
  /-- There is no bundle of this name. -/
  | unknownBundle (name : String)
  /-- There is no shared domain of this name. -/
  | unknownSharedDomain (name : String)
  /-- There is no constraint of this name. -/
  | unknownConstraint (name : String)
  /-- The variable is not of the kind that the edit is for. -/
  | wrongKind (name : String) (expected : Kind)
  /-- The size is 0. -/
  | invalidSize (size : Nat)
  /-- The aggregate has no element at this index. -/
  | indexOutOfRange (index size : Nat)
  deriving DecidableEq

/-- The error as it is shown. -/
def ModelError.text : ModelError → String
  | emptyName => "name must not be empty"
  | emptyExpression owner => "expression for `" ++ owner ++ "` must not be empty"
  | duplicateName name => "`" ++ name ++ "` is already defined"
  | unknownVariable name => "variable `" ++ name ++ "` does not exist"
  | unknownBundle name => "bundle `" ++ name ++ "` does not exist"
  | unknownSharedDomain name => "shared domain `" ++ name ++ "` does not exist"
  | unknownConstraint name => "constraint `" ++ name ++ "` does not exist"
  | wrongKind name expected => "`" ++ name ++ "` is not " ++ expected.text
  | invalidSize size => "size must be positive, got " ++ Decimal.ofNat size
  | indexOutOfRange index size =>
    "index " ++ Decimal.ofNat index ++ " is outside 1..=" ++ Decimal.ofNat size

end FiniteDomain
