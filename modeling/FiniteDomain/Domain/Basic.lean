import FiniteDomain.Expression.Render

/-!
# Finite domains

A domain is a finite list of values in a fixed order: the integers or characters of a range in
ascending order, or items in the order in which they were given. A value is addressed by its
position, counted from 1.

Ranges are given by their ends, so positions and values are computed with words. The arithmetic
wraps; it is exact for every domain that evaluation returns.

## Main definitions

* `Domain.size`: the number of values.
* `Domain.position?`: the position of a value.
* `Domain.value?`: the value at a position.
* `Domain.key`: the number that comparisons use for the value at a position.
* `Domain.literalKey?`: the number that comparisons use for a constant.
-/

namespace FiniteDomain

/-- A value as the user of a model sees it. -/
inductive Value where
  /-- An integer. -/
  | int (value : Int64)
  /-- A character. -/
  | char (value : Char)
  /-- An item of a list or a cell of a table. -/
  | item (value : String)
  deriving DecidableEq

/-- The value as text, without quotes. -/
def Value.text : Value → String
  | .int value => Decimal.ofInt64 value
  | .char value => String.ofList [value]
  | .item value => value

/-- A finite ordered domain. -/
inductive Domain where
  /-- The integers from `low` to `high`. -/
  | intRange (low high : Int64)
  /-- The characters from `low` to `high`, by code point. -/
  | charRange (low high : Char)
  /-- Items that were listed. -/
  | list (items : List String)
  /-- Cells of a table. -/
  | table (items : List String)
  deriving DecidableEq

namespace Domain

/-- The domain as text: the ends of a range, or the items. -/
def render : Domain → String
  | intRange low high => Decimal.ofInt64 low ++ ".." ++ Decimal.ofInt64 high
  | charRange low high => quoteChar low ++ ".." ++ quoteChar high
  | list items => ", ".intercalate (items.map quoteItem)
  | table items => ", ".intercalate (items.map quoteItem)

/-- The largest number of values that is counted. -/
def countLimit : Nat :=
  UInt64.size - 1

/-- The number of values of the domain. A range counts the distance of its ends, whichever is
larger; the count of integers stops at `countLimit`. -/
def size : Domain → Nat
  | intRange low high => min ((high.toInt - low.toInt).natAbs + 1) countLimit
  | charRange low high => (high.val - low.val).toNat + 1
  | list items => items.length
  | table items => items.length

/-- The number of values as a signed word, which positions are compared with. -/
def sizeWord (d : Domain) : Int64 :=
  Int64.ofNat d.size

/-- The positions of the domain in ascending order, at most `limit` of them. -/
def positionsUpTo (d : Domain) (limit : Nat) : List Int64 :=
  (List.range (min limit d.sizeWord.toNatClampNeg)).map fun i => Int64.ofNat (i + 1)

/-- All positions of the domain in ascending order. -/
def positions (d : Domain) : List Int64 :=
  d.positionsUpTo d.sizeWord.toNatClampNeg

/-- Positions fit the word, so they ascend with their places in the list. -/
theorem positions_ascending (d : Domain) : d.positions.Pairwise (· < ·) := by
  rw [positions, positionsUpTo, Nat.min_self, List.pairwise_map]
  refine List.Pairwise.imp_of_mem ?_ List.pairwise_lt_range
  intro i j hi hj hij
  have hlt := d.sizeWord.toNatClampNeg_lt
  have hi' : i < d.sizeWord.toNatClampNeg := List.mem_range.1 hi
  have hj' : j < d.sizeWord.toNatClampNeg := List.mem_range.1 hj
  rw [Int64.lt_iff_toInt_lt, Int64.toInt_ofNat_of_lt (by omega), Int64.toInt_ofNat_of_lt (by omega)]
  omega

/-- The position of the first occurrence of an item. -/
def itemPosition? (items : List String) (item : String) : Option Int64 :=
  (items.idxOf? item).map fun i => Int64.ofNat (i + 1)

/-- The code point of a character as a signed word. -/
def codePoint (c : Char) : Int64 :=
  Int64.ofNat c.toNat

/-- The position of a value, if the domain has the value. -/
def position? : Domain → Value → Option Int64
  | intRange low high, .int v => if low ≤ v ∧ v ≤ high then some (v - low + 1) else none
  | charRange low high, .char c =>
    if low ≤ c ∧ c ≤ high then some (codePoint c - codePoint low + 1) else none
  | list items, .item text => itemPosition? items text
  | table items, .item text => itemPosition? items text
  | _, _ => none

/-- The character with the given code point, if there is one. -/
def charOfCodePoint? (n : UInt32) : Option Char :=
  if h : n.isValidChar then some ⟨n, h⟩ else none

/-- The value at a position, if the domain has the position. -/
def value? (d : Domain) (position : Int64) : Option Value :=
  if position < 1 ∨ d.sizeWord < position then none
  else
    let offset := position - 1
    match d with
    | intRange low _ => some (.int (low + offset))
    | charRange low _ => (charOfCodePoint? (low.val + offset.toUInt64.toUInt32)).map .char
    | list items => items[offset.toNatClampNeg]?.map .item
    | table items => items[offset.toNatClampNeg]?.map .item

/-- The number that comparisons use for the value at a position: the integer itself, the code point
of a character, or the position of an item. -/
def key : Domain → Int64 → Int64
  | intRange low _, position => low + (position - 1)
  | charRange low _, position => codePoint low + (position - 1)
  | list _, position => position
  | table _, position => position

/-- The number that comparisons use for a constant that is compared with a value of this domain.
Numbers and characters need not lie in the range; an item must be in the list. -/
def literalKey? : Domain → Literal → Option Int64
  | intRange _ _, .integer value => some value
  | charRange _ _, .integer value => some value
  | intRange _ _, .character c => some (codePoint c)
  | charRange _ _, .character c => some (codePoint c)
  | list items, .item text => itemPosition? items text
  | table items, .item text => itemPosition? items text
  | _, _ => none

end Domain

end FiniteDomain
