import FiniteDomain.Expression.Lexeme
import FiniteDomain.Text.Decimal

/-!
# Templates as text

A template is the text of a constraint expression without its repeater clause. The constraints that
it stands for are obtained by writing numbers in place of counters.

* `Template.strip`: the text before the repeater clause.
* `Template.substitute`: the template with counters replaced by their values.
-/

namespace FiniteDomain.Template

/-- Counters with their values, the innermost first. -/
abbrev Bindings : Type :=
  List (String × Int64)

/-- A character that opens and closes a quoted text. -/
def isQuote (c : Char) : Bool :=
  c == '\'' || c == '"'

/-- The text before the first vertical bar outside quotes; `quote` is the quote that is open. -/
def beforeBar : Option Char → List Char → List Char
  | _, [] => []
  | some quote, c :: rest => c :: beforeBar (if c = quote then none else some quote) rest
  | none, c :: rest =>
    if c = '|' then [] else c :: beforeBar (if isQuote c then some c else none) rest

/-- The text of a constraint expression without its repeater clause and the white space before it.
-/
def strip (cs : List Char) : List Char :=
  Text.trimEnd (beforeBar none cs)

/-- The characters up to and including the next `quote`, and those after it. -/
def spanQuoted (quote : Char) (cs : List Char) : List Char × List Char :=
  match cs.dropWhile (· != quote) with
  | [] => (cs, [])
  | c :: rest => (cs.takeWhile (· != quote) ++ [c], rest)

/-- What follows a quoted text is shorter than the text it was taken from. -/
theorem length_spanQuoted_le (quote : Char) (cs : List Char) :
    (spanQuoted quote cs).2.length ≤ cs.length := by
  unfold spanQuoted
  have h := (List.dropWhile_sublist (l := cs) (· != quote)).length_le
  split
  · simp
  · next h' => rw [h'] at h; simp at h ⊢; omega

/-- What a name in a template is written as. A name after a dollar sign or a dot, or before a
bracket, refers to a variable or a field; any other name that is bound stands for its value. -/
def replacement (bindings : Bindings) (previous : Option Char) (name rest : List Char) :
    List Char :=
  let refers := previous == some '$' || previous == some '.' ||
    (Text.trimStart rest).head? == some '['
  match bindings.lookup (String.ofList name) with
  | some value => if refers then name else (Decimal.ofInt64 value).toList
  | none => name

/-- The template with every bound counter replaced by its value, outside quotes. `previous` is the
character before the text; a letter after a letter or digit does not start a name. -/
def substitute (bindings : Bindings) (previous : Option Char) : List Char → List Char
  | [] => []
  | c :: rest =>
    if isQuote c then
      c :: (spanQuoted c rest).1 ++ substitute bindings (some c) (spanQuoted c rest).2
    else if isNameStart c && !previous.any isNameChar then
      let name := c :: rest.takeWhile isNameChar
      let after := rest.dropWhile isNameChar
      replacement bindings previous name after ++ substitute bindings name.getLast? after
    else c :: substitute bindings (some c) rest
termination_by cs => cs.length
decreasing_by
  · simpa [Nat.lt_succ_iff] using length_spanQuoted_le c rest
  · simpa [Nat.lt_succ_iff] using (List.dropWhile_sublist (l := rest) isNameChar).length_le
  · simp

end FiniteDomain.Template
