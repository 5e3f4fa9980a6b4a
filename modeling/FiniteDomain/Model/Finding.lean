import FiniteDomain.Domain.Evaluation

/-!
# Findings

What validation can find wrong with a model.

* `Finding.text`: a finding as it is shown.
* `Report`: all findings of a validation.
-/

namespace FiniteDomain

/-- One thing that is wrong with a model. -/
inductive Finding where
  /-- The name is declared more than once. -/
  | duplicateName (name : String)
  /-- An expression of `subject` cannot be read. -/
  | parse (subject : String) (error : ParseError)
  /-- The domain expression of a variable refers to a shared domain that does not exist. -/
  | missingSharedDomain (unknown domain : String)
  /-- A domain expression of `subject` cannot be evaluated. -/
  | domain (subject : String) (error : DomainError)
  /-- A constraint refers to a variable that does not exist. -/
  | missingVariable (constraint unknown : String)
  /-- A constraint uses a subscript outside the variable. -/
  | subscriptOutOfRange (constraint unknown : String) (index : Int64) (size : UInt64)
  /-- A constraint refers to a field that the bucket's bundle does not have. -/
  | missingField (constraint bucket field : String)
  /-- A constraint refers to a variable as if it were of another kind. -/
  | wrongKind (constraint unknown expected : String)
  /-- An all-different constraint is not on an aggregate. -/
  | notAnAggregate (name : String)
  /-- A bucket is made of a bundle that does not exist. -/
  | missingBundle (bucket bundle : String)
  deriving DecidableEq

/-- The finding as it is shown. -/
def Finding.text : Finding → String
  | duplicateName name => "`" ++ name ++ "` is defined more than once"
  | parse subject error => "`" ++ subject ++ "` cannot be parsed: " ++ error.text
  | missingSharedDomain unknown shared =>
    "variable `" ++ unknown ++ "` references missing shared domain `" ++ shared ++ "`"
  | domain subject error => "domain of `" ++ subject ++ "` is invalid: " ++ error.text
  | missingVariable constraint unknown =>
    "constraint `" ++ constraint ++ "` references missing variable `" ++ unknown ++ "`"
  | subscriptOutOfRange constraint unknown index size =>
    "constraint `" ++ constraint ++ "` indexes `" ++ unknown ++ "[" ++ Decimal.ofInt64 index ++
      "]` outside 1..=" ++ Decimal.ofUInt64 size
  | missingField constraint bucket field =>
    "constraint `" ++ constraint ++ "` references missing field `" ++ field ++ "` of bucket `" ++
      bucket ++ "`"
  | wrongKind constraint unknown expected =>
    "constraint `" ++ constraint ++ "` uses `" ++ unknown ++ "` as " ++ expected ++
      ", but it is not one"
  | notAnAggregate name =>
    "all different constraint targets `" ++ name ++ "`, which is not an aggregate"
  | missingBundle bucket bundle =>
    "bucket `" ++ bucket ++ "` references missing bundle `" ++ bundle ++ "`"

/-- All findings of a validation. -/
structure Report where
  /-- The findings in the order in which they were made. -/
  findings : List Finding
  deriving DecidableEq

/-- A model without findings is valid. -/
def Report.isValid (r : Report) : Bool :=
  r.findings.isEmpty

end FiniteDomain
