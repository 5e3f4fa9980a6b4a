import FiniteDomain.Expression.Constraint
import FiniteDomain.Expression.Lexeme
import FiniteDomain.Expression.ParseError

/-!
# Reading constraint expressions

```text
constraint := term comparison term repeater?
term       := operand (("+" | "-") index)?
operand    := literal | "$"? name ("[" index "]" ("." name)?)?
literal    := integer | 'c' | "item"
comparison := "<>" | "!=" | "≠" | "<=" | "≤" | ">=" | "≥" | "==" | "=" | "<" | ">"
repeater   := "|" name ("," name)* "in" range ("," range)*
range      := bound ((".." | "range") bound)?
bound      := index (("+" | "-") integer)?
index      := integer | name
```

The alternatives are tried in this order; an optional part that cannot be read is left unread.
Layout may stand around symbols, also between a closing bracket and the dot before a field, but not
after that dot or after a dollar sign. A repeater clause has one range for each counter. Its ranges
only use counters declared to their left, no counter is declared twice, and every counter used in a
subscript or an adjustment is declared.

* `ConstraintExpr.parse`: reads a whole text.
* `checkCounters`: the rules on counters.
-/

namespace FiniteDomain

namespace Reader

/-- A number or a counter. -/
def index : Reader Index :=
  orElse (map .literal integer) (map .counter name)

/-- A constant. -/
def literal : Reader Literal :=
  orElse (map .integer integer) (orElse (map .character character) (map .item item))

/-- An index in brackets. -/
def subscript : Reader Index := fun cs => do
  let (_, rest) ← padded (symbol '[') cs
  let (i, rest) ← padded index rest
  let (_, rest) ← padded (symbol ']') rest
  return (i, rest)

/-- A dot and the name of a field. -/
def fieldName : Reader String := fun cs => do
  let (_, rest) ← symbol '.' cs
  name rest

/-- A reference to a variable. -/
def reference : Reader Reference := fun cs => do
  let (_, rest) ← optional (symbol '$') cs
  let (n, rest) ← name rest
  match subscript rest with
  | none => return (.singleton n, rest)
  | some (i, rest) =>
    match fieldName rest with
    | none => return (.element n i, rest)
    | some (f, rest) => return (.field n i f, rest)

/-- An operand: a constant, or else a reference. -/
def operand : Reader Operand :=
  orElse (map .literal literal) (map .reference reference)

/-- A plus or minus sign. -/
def sign : Reader Sign
  | '+' :: rest => some (.plus, rest)
  | '-' :: rest => some (.minus, rest)
  | _ => none

/-- A signed amount. -/
def adjustment : Reader Adjustment := fun cs => do
  let (s, rest) ← padded sign cs
  let (amount, rest) ← padded index rest
  return (⟨s, amount⟩, rest)

/-- One side of a comparison. -/
def term : Reader Term := fun cs => do
  let (o, rest) ← operand cs
  let (a, rest) ← optional adjustment rest
  return (⟨o, a⟩, rest)

/-- The spellings of comparisons, those that others start with after the longer ones. -/
def comparisonSpellings : List (List Char × Comparison) :=
  [(['<', '>'], .ne), (['!', '='], .ne), (['≠'], .ne), (['<', '='], .le), (['≤'], .le),
    (['>', '='], .ge), (['≥'], .ge), (['=', '='], .eq), (['='], .eq), (['<'], .lt), (['>'], .gt)]

/-- A comparison: the first spelling that the text starts with. -/
def comparison : Reader Comparison := fun cs =>
  comparisonSpellings.findSome? fun (word, c) => map (fun _ => c) (token word) cs

/-- The offset of a bound; a subtracted amount is negated, which must fit the word. -/
def boundOffset : Reader Int64 := fun cs => do
  let (s, rest) ← padded sign cs
  let (amount, rest) ← padded integer rest
  match s with
  | .plus => return (amount, rest)
  | .minus => do
    let offset ← Word.negExact? amount
    return (offset, rest)

/-- One end of a counter's range. -/
def bound : Reader Bound := fun cs => do
  let (value, rest) ← padded index cs
  let (offset, rest) ← optional boundOffset rest
  return (⟨value, offset.getD 0⟩, rest)

/-- The upper end of a range that has two ends. -/
def upperBound : Reader Bound := fun cs => do
  let (_, rest) ← padded rangeSign cs
  bound rest

/-- A counter's range: its lower end, if given, and its upper end. -/
def counterRange : Reader (Option Bound × Bound) := fun cs => do
  let (first, rest) ← bound cs
  let (second, rest) ← optional upperBound rest
  match second with
  | some high => return ((some first, high), rest)
  | none => return ((none, first), rest)

/-- The counters and the ranges of a repeater clause. -/
def repeaterLists : Reader (List String × List (Option Bound × Bound)) := fun cs => do
  let (_, rest) ← padded (symbol '|') cs
  let (names, rest) ← commaSeparated (padded name) rest
  let (_, rest) ← padded (keyword ['i', 'n']) rest
  let (ranges, rest) ← commaSeparated counterRange rest
  return ((names, ranges), rest)

end Reader

/-- Gives each counter the range at its place. -/
def declareCounters (names : List String) (ranges : List (Option Bound × Bound)) : List Counter :=
  names.zipWith (fun name (low, high) => ⟨name, low, high⟩) ranges

/-- The counters among `bounds` that are not declared. -/
def undeclared (declared : List String) (bounds : List Bound) : List String :=
  (bounds.filterMap fun b => b.value.counter?).filter fun name => !declared.contains name

/-- Checks that ranges only use counters declared to their left and that no counter is declared
twice. Returns the declared counters; faults are reported at `offset`. -/
def checkDeclarations (offset : UInt64) :
    List Counter → List String → Except ParseError (List String)
  | [], declared => .ok declared
  | c :: counters, declared =>
    match undeclared declared c.bounds with
    | name :: _ => .error ⟨"counter `" ++ name ++ "` is used before it is declared", offset⟩
    | [] =>
      if declared.contains c.name then
        .error ⟨"counter `" ++ c.name ++ "` is declared twice", offset⟩
      else checkDeclarations offset counters (c.name :: declared)

/-- Checks the rules on counters. Faults in the clause are reported at `offset`. -/
def checkCounters (offset : UInt64) (e : ConstraintExpr) : Except ParseError Unit := do
  let declared ← checkDeclarations offset (e.repeater.getD []) []
  match e.counterUses.find? fun name => !declared.contains name with
  | some name => .error ⟨"`" ++ name ++ "` is not a declared counter", 0⟩
  | none => .ok ()

/-- The offset of the first vertical bar of a text, wherever it stands; 0 if there is none. -/
def barOffset (whole : List Char) : UInt64 :=
  match whole.dropWhile (· != '|') with
  | [] => 0
  | rest => byteOffset whole rest

/-- Reads the optional repeater clause. A clause that does not give each counter one range is an
error at its end; anything else that cannot be read is left unread. -/
def readRepeater (whole cs : List Char) : Except ParseError (Option (List Counter) × List Char) :=
  match Reader.repeaterLists cs with
  | none => .ok (none, cs)
  | some ((names, ranges), rest) =>
    if names.length = ranges.length then .ok (some (declareCounters names ranges), rest)
    else .error (.expected "one range per counter" whole rest)

/-- The value read, or an error that says what was expected at `cs`. -/
def Reader.require {α : Type} (p : Reader α) (what : String) (whole cs : List Char) :
    Except ParseError (α × List Char) :=
  match p cs with
  | some result => .ok result
  | none => .error (.expected what whole cs)

/-- Reads a text that is one constraint expression with layout around it, without the rules on
counters. -/
def ConstraintExpr.readTree (whole : List Char) : Except ParseError ConstraintExpr := do
  let (left, rest) ← Reader.term.require "expression" whole (Text.skipLayout whole)
  let (comparison, rest) ←
    (Reader.padded Reader.comparison).require "relational operator" whole rest
  let (right, rest) ← Reader.term.require "expression" whole rest
  let (repeater, rest) ← readRepeater whole rest
  match Text.skipLayout rest with
  | [] => .ok ⟨left, comparison, right, repeater⟩
  | rest => .error (.leftOver whole rest)

/-- Reads a text that is one constraint expression, with layout around it. -/
def ConstraintExpr.parse (text : String) : Except ParseError ConstraintExpr :=
  if Text.isBlankText text then .error ⟨"empty constraint expression", 0⟩
  else do
    let tree ← ConstraintExpr.readTree text.toList
    checkCounters (barOffset text.toList) tree
    return tree

end FiniteDomain
