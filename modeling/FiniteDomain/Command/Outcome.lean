import FiniteDomain.SolveError
import FiniteDomain.Text.Quoted

/-!
# What a command leaves behind

The exit code and the two outputs of a command, and the diagnostic it gives for an error.

* `SolveError.diagnostic`: an error as a diagnostic shows it, structure and all.
-/

namespace FiniteDomain

/-- A named value with fields, as diagnostics show it. -/
def diagnosticRecord (name : String) (fields : List (String × String)) : String :=
  name ++ " \x7b " ++ ", ".intercalate (fields.map fun f => f.1 ++ ": " ++ f.2) ++ " \x7d"

/-- A named value with one part, as diagnostics show it. -/
def diagnosticCall (name part : String) : String :=
  name ++ "(" ++ part ++ ")"

/-- A reading error as diagnostics show it. -/
def ParseError.diagnostic (e : ParseError) : String :=
  diagnosticRecord "ParseError"
    [("message", Quoted.quote e.message), ("offset", Decimal.ofUInt64 e.offset)]

/-- A domain error as diagnostics show it. -/
def DomainError.diagnostic : DomainError → String
  | unknownShared name => diagnosticCall "UnknownSharedDomain" (Quoted.quote name)
  | nestedShared name => diagnosticCall "NestedSharedReference" (Quoted.quote name)
  | unknownFunction name => diagnosticCall "UnknownFunction" (Quoted.quote name)
  | badArguments name expected =>
    diagnosticRecord "BadArguments"
      [("name", Quoted.quote name), ("expected", Quoted.quote expected)]
  | unknownAggregate name => diagnosticCall "UnknownAggregate" (Quoted.quote name)
  | mismatchedBands => "MismatchedBands"
  | emptyRange range => diagnosticCall "EmptyRange" (Quoted.quote range)
  | tooLarge expression limit =>
    diagnosticRecord "TooLarge"
      [("expression", Quoted.quote expression), ("limit", Decimal.ofUInt64 limit)]
  | surrogateRange range => diagnosticCall "SurrogateRange" (Quoted.quote range)
  | sharedSyntax name error =>
    diagnosticRecord "SharedDomainSyntax"
      [("name", Quoted.quote name), ("error", error.diagnostic)]
  | unknownTable name => diagnosticCall "UnknownTable" (Quoted.quote name)
  | emptySlice slice => diagnosticCall "EmptyTableSlice" (Quoted.quote slice)
  | duplicateValue value => diagnosticCall "DuplicateValue" (Quoted.quote value)

/-- An error as diagnostics show it. -/
def SolveError.diagnostic (e : SolveError) : String :=
  match e with
  | parse error => diagnosticCall "Parse" error.diagnostic
  | domain error => diagnosticCall "Domain" error.diagnostic
  | unmappable value domainText =>
    diagnosticRecord "UnmappableValue"
      [("value", Quoted.quote value), ("domain", Quoted.quote domainText)]
  | unsupported cause => diagnosticCall "UnsupportedExpression" (Quoted.quote cause.text)
  | unknownVariable reference => diagnosticCall "UnknownVariable" (Quoted.quote reference)
  | limitReached limit => diagnosticCall "SearchLimitReached" (Decimal.ofNat limit)
  | missingBundle _ _ => diagnosticCall "Custom" (Quoted.quote e.text)
  | unassigned _ => diagnosticCall "Custom" (Quoted.quote e.text)

namespace Command

/-- What a command leaves behind. -/
structure Outcome where
  /-- The exit code. -/
  exit : Nat
  /-- What was printed to the standard output. -/
  stdout : String
  /-- What was printed to the standard error output. -/
  stderr : String
  deriving DecidableEq

/-- The outcome of a command that was called with arguments it does not take. -/
def Outcome.usage : Outcome :=
  ⟨2, "", "usage\n"⟩

/-- The outcome of a command that printed `stdout` and then met an error. -/
def Outcome.failed (stdout : String) (e : SolveError) : Outcome :=
  ⟨1, stdout, "Error: " ++
    diagnosticRecord "Inner" [("inner", e.diagnostic), ("backtrace", "<disabled>")] ++ "\n"⟩

end Command

end FiniteDomain
