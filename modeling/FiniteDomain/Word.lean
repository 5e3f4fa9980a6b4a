/-!
# Checked words

Sums and negations of signed 64-bit words that are only defined when the result fits the word. Plain
`+`, `-` on `Int64` wrap; the operations here fail instead.

* `addExact?_eq_some_iff`: the checked sum is defined exactly when the sum of the integers fits, and
  is that sum.
-/

namespace FiniteDomain.Word

/-- The signed word with the given integer value, if there is one. -/
def ofInt? (n : Int) : Option Int64 :=
  if Int64.minValue.toInt ≤ n ∧ n ≤ Int64.maxValue.toInt then some (Int64.ofInt n) else none

/-- The sum of two words, if it fits the word. -/
def addExact? (a b : Int64) : Option Int64 :=
  ofInt? (a.toInt + b.toInt)

/-- The negation of a word, if it fits the word: all words but the least one. -/
def negExact? (a : Int64) : Option Int64 :=
  ofInt? (-a.toInt)

/-- The unsigned word with the given value, if there is one. -/
def ofNat? (n : Nat) : Option UInt64 :=
  if n < UInt64.size then some (UInt64.ofNat n) else none

/-- A word that is found has the value that was asked for. -/
theorem ofInt?_eq_some_iff {n : Int} {a : Int64} : ofInt? n = some a ↔ a.toInt = n := by
  unfold ofInt?
  constructor
  · intro h
    split at h
    case isTrue hn =>
      cases h
      exact Int64.toInt_ofInt_of_le hn.1 (Int.lt_of_le_of_lt hn.2 (by decide))
    case isFalse => cases h
  · rintro rfl
    rw [if_pos ⟨Int64.minValue_le_toInt a, Int64.toInt_le a⟩, Int64.ofInt_toInt]

/-- The checked sum is defined exactly when the sum of the integers fits, and is that sum. -/
theorem addExact?_eq_some_iff {a b c : Int64} :
    addExact? a b = some c ↔ c.toInt = a.toInt + b.toInt :=
  ofInt?_eq_some_iff

/-- The checked negation is defined exactly when the negated integer fits, and is that integer. -/
theorem negExact?_eq_some_iff {a c : Int64} : negExact? a = some c ↔ c.toInt = -a.toInt :=
  ofInt?_eq_some_iff

end FiniteDomain.Word
