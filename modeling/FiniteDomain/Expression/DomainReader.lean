import FiniteDomain.Expression.Domain
import FiniteDomain.Expression.Lexeme
import FiniteDomain.Expression.ParseError

/-!
# Reading domain expressions

```text
domain   := range | table | shared | list
range    := band (".." | "range") band
band     := integer | 'c' | name "(" argument ("," argument)* ")"
argument := integer | name
table    := name "!" natural ":" natural
shared   := "$" name
list     := "item" ("," "item")*
```

The alternatives are tried in this order and the first that reads a beginning of the text counts.
Layout may stand around symbols, but not after the dollar sign.

* `DomainExpr.parse`: reads a whole text.
-/

namespace FiniteDomain

namespace Reader

/-- An argument of a function call. -/
def argument : Reader Argument :=
  orElse (map .integer integer) (map .name name)

/-- A function call with at least one argument. -/
def call : Reader Call := fun cs => do
  let (function, rest) ← name cs
  let (_, rest) ← padded (symbol '(') rest
  let (arguments, rest) ← commaSeparated (padded argument) rest
  let (_, rest) ← padded (symbol ')') rest
  return (⟨function, arguments⟩, rest)

/-- One end of a range. -/
def band : Reader Band :=
  orElse (map .integer integer) (orElse (map .character character) (map .call call))

/-- Two bands with the range sign between them. -/
def range : Reader DomainExpr := fun cs => do
  let (low, rest) ← band cs
  let (_, rest) ← padded rangeSign rest
  let (high, rest) ← band rest
  return (.range low high, rest)

/-- A table slice. -/
def slice : Reader Slice := fun cs => do
  let (table, rest) ← name cs
  let (_, rest) ← padded (symbol '!') rest
  let (column, rest) ← padded natural rest
  let (_, rest) ← padded (symbol ':') rest
  let (row, rest) ← padded natural rest
  return (⟨table, column, row⟩, rest)

/-- The name of a shared domain, with its dollar sign. -/
def sharedName : Reader String := fun cs => do
  let (_, rest) ← symbol '$' cs
  name rest

/-- A domain expression. -/
def domainExpr : Reader DomainExpr :=
  orElse range <| orElse (map .table slice) <| orElse (map .shared sharedName)
    (map .list (commaSeparated (padded item)))

end Reader

/-- Reads a text that is one domain expression, with layout around it. -/
def DomainExpr.parse (text : String) : Except ParseError DomainExpr :=
  if Text.isBlankText text then .error ⟨"empty domain expression", 0⟩
  else
    let whole := text.toList
    let start := Text.skipLayout whole
    match Reader.domainExpr start with
    | none => .error (.expected "domain expression" whole start)
    | some (tree, rest) =>
      match Text.skipLayout rest with
      | [] => .ok tree
      | rest => .error (.leftOver whole rest)

end FiniteDomain
