import FiniteDomain.Json.Codec
import FiniteDomain.Model.Finding

/-!
# The JSON form of reports

* `Report.toJson` and `Report.ofJson?`.
-/

namespace FiniteDomain

open Json

/-- The JSON form of a reading error. -/
def ParseError.toJson (e : ParseError) : Json :=
  object [("message", string e.message), ("offset", ofUInt64 e.offset)]

/-- Reads a reading error. -/
def ParseError.ofJson? (j : Json) : Option ParseError := do
  match ← fields? ["message", "offset"] j with
  | [some message, some offset] => return ⟨← message.string?, ← offset.uint64?⟩
  | _ => none

/-- The JSON form of a domain error. -/
def DomainError.toJson : DomainError → Json
  | unknownShared name => ofVariant "UnknownSharedDomain" (string name)
  | nestedShared name => ofVariant "NestedSharedReference" (string name)
  | unknownFunction name => ofVariant "UnknownFunction" (string name)
  | badArguments name expected =>
    ofVariant "BadArguments" (object [("name", string name), ("expected", string expected)])
  | unknownAggregate name => ofVariant "UnknownAggregate" (string name)
  | mismatchedBands => string "MismatchedBands"
  | emptyRange range => ofVariant "EmptyRange" (string range)
  | tooLarge expression limit =>
    ofVariant "TooLarge" (object [("expression", string expression), ("limit", ofUInt64 limit)])
  | surrogateRange range => ofVariant "SurrogateRange" (string range)
  | sharedSyntax name error =>
    ofVariant "SharedDomainSyntax" (object [("name", string name), ("error", error.toJson)])
  | unknownTable name => ofVariant "UnknownTable" (string name)
  | emptySlice slice => ofVariant "EmptyTableSlice" (string slice)
  | duplicateValue value => ofVariant "DuplicateValue" (string value)

/-- Reads a domain error. -/
def DomainError.ofJson? (j : Json) : Option DomainError := do
  match ← variant? j with
  | ("MismatchedBands", none) => return mismatchedBands
  | ("MismatchedBands", some null) => return mismatchedBands
  | ("UnknownSharedDomain", some payload) => payload.string?.map unknownShared
  | ("NestedSharedReference", some payload) => payload.string?.map nestedShared
  | ("UnknownFunction", some payload) => payload.string?.map unknownFunction
  | ("UnknownAggregate", some payload) => payload.string?.map unknownAggregate
  | ("EmptyRange", some payload) => payload.string?.map emptyRange
  | ("SurrogateRange", some payload) => payload.string?.map surrogateRange
  | ("UnknownTable", some payload) => payload.string?.map unknownTable
  | ("EmptyTableSlice", some payload) => payload.string?.map emptySlice
  | ("DuplicateValue", some payload) => payload.string?.map duplicateValue
  | ("BadArguments", some payload) =>
    match ← fields? ["name", "expected"] payload with
    | [some name, some expected] => return badArguments (← name.string?) (← expected.string?)
    | _ => none
  | ("TooLarge", some payload) =>
    match ← fields? ["expression", "limit"] payload with
    | [some expression, some limit] => return tooLarge (← expression.string?) (← limit.uint64?)
    | _ => none
  | ("SharedDomainSyntax", some payload) =>
    match ← fields? ["name", "error"] payload with
    | [some name, some error] => return sharedSyntax (← name.string?) (← ParseError.ofJson? error)
    | _ => none
  | _ => none

namespace Finding

/-- The JSON form of a finding. -/
def toJson : Finding → Json
  | duplicateName name => ofVariant "DuplicateName" (string name)
  | parse subject error =>
    ofVariant "Parse" (object [("subject", string subject), ("error", error.toJson)])
  | missingSharedDomain unknown shared =>
    ofVariant "MissingSharedDomain"
      (object [("variable", string unknown), ("domain", string shared)])
  | domain subject error =>
    ofVariant "Domain" (object [("subject", string subject), ("error", error.toJson)])
  | missingVariable constraint unknown =>
    ofVariant "MissingVariable"
      (object [("constraint", string constraint), ("variable", string unknown)])
  | subscriptOutOfRange constraint unknown index size =>
    ofVariant "SubscriptOutOfRange"
      (object [("constraint", string constraint), ("variable", string unknown),
        ("index", ofInt64 index), ("size", ofUInt64 size)])
  | missingField constraint bucket field =>
    ofVariant "MissingBundleField"
      (object [("constraint", string constraint), ("bucket", string bucket),
        ("field", string field)])
  | wrongKind constraint unknown expected =>
    ofVariant "WrongReferenceKind"
      (object [("constraint", string constraint), ("variable", string unknown),
        ("expected", string expected)])
  | notAnAggregate name => ofVariant "NotAnAggregate" (string name)
  | missingBundle bucket bundle =>
    ofVariant "MissingBundle" (object [("bucket", string bucket), ("bundle", string bundle)])

/-- Reads a finding. -/
def ofJson? (j : Json) : Option Finding := do
  match ← variant? j with
  | ("DuplicateName", some payload) => payload.string?.map duplicateName
  | ("NotAnAggregate", some payload) => payload.string?.map notAnAggregate
  | ("Parse", some payload) =>
    match ← fields? ["subject", "error"] payload with
    | [some subject, some error] => return parse (← subject.string?) (← ParseError.ofJson? error)
    | _ => none
  | ("MissingSharedDomain", some payload) =>
    match ← fields? ["variable", "domain"] payload with
    | [some unknown, some shared] =>
      return missingSharedDomain (← unknown.string?) (← shared.string?)
    | _ => none
  | ("Domain", some payload) =>
    match ← fields? ["subject", "error"] payload with
    | [some subject, some error] =>
      return domain (← subject.string?) (← DomainError.ofJson? error)
    | _ => none
  | ("MissingVariable", some payload) =>
    match ← fields? ["constraint", "variable"] payload with
    | [some constraint, some unknown] =>
      return missingVariable (← constraint.string?) (← unknown.string?)
    | _ => none
  | ("SubscriptOutOfRange", some payload) =>
    match ← fields? ["constraint", "variable", "index", "size"] payload with
    | [some constraint, some unknown, some index, some size] =>
      return subscriptOutOfRange (← constraint.string?) (← unknown.string?) (← index.int64?)
        (← size.uint64?)
    | _ => none
  | ("MissingBundleField", some payload) =>
    match ← fields? ["constraint", "bucket", "field"] payload with
    | [some constraint, some bucket, some field] =>
      return missingField (← constraint.string?) (← bucket.string?) (← field.string?)
    | _ => none
  | ("WrongReferenceKind", some payload) =>
    match ← fields? ["constraint", "variable", "expected"] payload with
    | [some constraint, some unknown, some expected] =>
      return wrongKind (← constraint.string?) (← unknown.string?) (← expected.string?)
    | _ => none
  | ("MissingBundle", some payload) =>
    match ← fields? ["bucket", "bundle"] payload with
    | [some bucket, some bundle] => return missingBundle (← bucket.string?) (← bundle.string?)
    | _ => none
  | _ => none

end Finding

/-- The JSON form of a report. -/
def Report.toJson (r : Report) : Json :=
  object [("errors", ofList Finding.toJson r.findings)]

/-- Reads a report. -/
def Report.ofJson? (j : Json) : Option Report := do
  match ← fields? ["errors"] j with
  | [some findings] => return ⟨← list? Finding.ofJson? findings⟩
  | _ => none

end FiniteDomain
