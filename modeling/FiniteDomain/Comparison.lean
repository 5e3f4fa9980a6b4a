/-!
# Comparisons

The six comparisons a constraint can state between two keys.

* `holds`: the truth of a comparison on two words.
* `flip`: the comparison that says the same with the sides exchanged.
* `holds_flip`: flipping a comparison and exchanging its sides changes nothing.
-/

namespace FiniteDomain

/-- A comparison of two keys. -/
inductive Comparison where
  /-- The keys are equal. -/
  | eq
  /-- The keys differ. -/
  | ne
  /-- The left key is smaller. -/
  | lt
  /-- The left key is at most the right one. -/
  | le
  /-- The left key is larger. -/
  | gt
  /-- The left key is at least the right one. -/
  | ge
  deriving DecidableEq

namespace Comparison

/-- Whether `left ⋈ right` is true. -/
def holds : Comparison → Int64 → Int64 → Bool
  | eq, left, right => left == right
  | ne, left, right => left != right
  | lt, left, right => decide (left < right)
  | le, left, right => decide (left ≤ right)
  | gt, left, right => decide (right < left)
  | ge, left, right => decide (right ≤ left)

/-- The comparison that holds of `right, left` whenever this one holds of `left, right`. -/
def flip : Comparison → Comparison
  | eq => eq
  | ne => ne
  | lt => gt
  | le => ge
  | gt => lt
  | ge => le

/-- How a comparison is written. -/
def symbol : Comparison → String
  | eq => "="
  | ne => "<>"
  | lt => "<"
  | le => "<="
  | gt => ">"
  | ge => ">="

/-- Flipping twice gives the comparison back. -/
@[simp]
theorem flip_flip (c : Comparison) : c.flip.flip = c := by
  cases c <;> rfl

/-- A flipped comparison of exchanged sides says the same. -/
@[simp]
theorem holds_flip (c : Comparison) (left right : Int64) :
    c.flip.holds right left = c.holds left right := by
  cases c <;> simp [flip, holds, bne, Bool.beq_comm]

end Comparison

end FiniteDomain
