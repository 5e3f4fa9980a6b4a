import FiniteDomain.SolveError

/-!
# Resolving domain texts

A resolver turns domain texts into domains and remembers each text it has resolved, so that a text
is read and evaluated once. Texts that differ in surrounding white space only are the same text;
failures are not remembered.
-/

namespace FiniteDomain

/-- A context with the texts resolved in it so far. -/
structure Resolver where
  /-- What the texts may refer to. -/
  context : Context
  /-- The trimmed texts resolved so far with their domains, the latest first. -/
  cache : List (String × Domain)

namespace Resolver

/-- A resolver that has resolved nothing yet. -/
def new (context : Context) : Resolver :=
  ⟨context, []⟩

/-- The number of texts resolved so far. -/
def cached (r : Resolver) : Nat :=
  r.cache.length

/-- Reads and evaluates a trimmed text. -/
def evaluate (context : Context) (text : String) : Except SolveError Domain :=
  match DomainExpr.parse text with
  | .error error => .error (.parse error)
  | .ok tree =>
    match Domain.evaluate context tree with
    | .error error => .error (.domain error)
    | .ok d => .ok d

/-- The domain of a text, and the resolver that remembers it. -/
def resolve (r : Resolver) (text : String) : Except SolveError (Domain × Resolver) :=
  let trimmed := Text.trim text
  match r.cache.lookup trimmed with
  | some d => .ok (d, r)
  | none =>
    match evaluate r.context trimmed with
    | .error error => .error error
    | .ok d => .ok (d, { r with cache := (trimmed, d) :: r.cache })

end Resolver

end FiniteDomain
