import FiniteDomain.Expression.ConstraintReader
import FiniteDomain.Expression.Render
import FiniteDomain.Template.Substitution

/-!
# Expanding templates

A constraint that is repeated over counters stands for one constraint for each combination of
counter values. The first counter is the outermost loop; a range includes both ends, starts at 1
when only its upper end is given, and may use the counters to its left. Each combination is
substituted into the template, and the text that results is read as a constraint.

* `Template.expand`: the constraints that a tree with its text stands for.
* `Template.expandText`: the same for a text alone.
-/

namespace FiniteDomain.Template

/-- The lower end of a range that gives only its upper end. -/
def implicitLow : Int64 :=
  1

/-- The value of a bound under the bindings made so far. -/
def boundValue (bindings : Bindings) (b : Bound) : Except ParseError Int64 := do
  let value ← match b.value with
    | .literal value => .ok value
    | .counter name =>
      match bindings.lookup name with
      | some value => .ok value
      | none => .error ⟨"counter `" ++ name ++ "` is not bound", 0⟩
  match Word.addExact? value b.offset with
  | some sum => .ok sum
  | none => .error ⟨"bound `" ++ b.render ++ "` overflows", 0⟩

/-- The number of values from `low` to `high`. -/
def rangeSize (low high : Int64) : Nat :=
  (high.toInt - low.toInt + 1).toNat

/-- Concatenates what `body` gives for `count` values from `first` on, stopping at the first error.
-/
def forEach {α ε : Type} (body : Int64 → Except ε (List α)) :
    (count : Nat) → (first : Int64) → Except ε (List α)
  | 0, _ => .ok []
  | count + 1, first => do
    let here ← body first
    let later ← forEach body count (first + 1)
    return here ++ later

/-- The constraints for all values of the given counters under the bindings made so far. -/
def expandCounters (template : List Char) :
    List Counter → Bindings → Except ParseError (List ConstraintExpr)
  | [], bindings => do
    let tree ← ConstraintExpr.parse (String.ofList (substitute bindings none template))
    return [tree]
  | c :: counters, bindings => do
    let low ← match c.low with
      | some b => boundValue bindings b
      | none => .ok implicitLow
    let high ← boundValue bindings c.high
    forEach (fun value => expandCounters template counters ((c.name, value) :: bindings))
      (rangeSize low high) low

/-- The constraints that a tree stands for, given the text it was read from. A tree without a
repeater clause stands for itself. -/
def expand (text : String) (tree : ConstraintExpr) : Except ParseError (List ConstraintExpr) :=
  match tree.repeater with
  | none => .ok [tree]
  | some counters => expandCounters (strip text.toList) counters []

/-- The constraints that a text stands for. -/
def expandText (text : String) : Except ParseError (List ConstraintExpr) := do
  let tree ← ConstraintExpr.parse text
  expand text tree

end FiniteDomain.Template
