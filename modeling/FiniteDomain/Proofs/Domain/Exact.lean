import FiniteDomain.Domain.Evaluation
import FiniteDomain.Network.Build
import Mathlib.Data.List.Nodup

/-!
# Exact arithmetic on domains

Keys are computed with words that wrap. On the domains that evaluation returns they never do: the
key of a position and a key with an accepted offset are the sums of the integers. So comparisons of
words are comparisons of integers.

## Main definitions

* `Comparison.Holds`: a comparison of integers.
* `Domain.Proper`: what evaluation ensures of the domains that it returns.
* `Domain.exactKey`, `Domain.exactLiteral?`: keys of positions and constants as integers.

## Main results

* `Comparison.holds_iff`: a comparison of words is that of their values.
* `Domain.toInt_key`: the key of a position of a proper domain is exact.
* `Domain.toInt_key_add`: so is its sum with an offset that does not overflow.
* `Domain.value?_isSome`: every position of a proper domain has a value.
* `Domain.value?_eq_none`: nothing else has one.
-/

namespace FiniteDomain

namespace Word

/-- A sum of words that lies between two words is exact. -/
theorem toInt_add_of_between (low high : Int64) {a b : Int64}
    (hlow : low.toInt ≤ a.toInt + b.toInt) (hhigh : a.toInt + b.toInt ≤ high.toInt) :
    (a + b).toInt = a.toInt + b.toInt := by
  have hleast := low.le_toInt
  have hgreatest := high.toInt_lt
  -- the sum wraps only outside the range of words
  rw [Int64.toInt_add]
  exact Int.bmod_eq_of_le (by omega) (by omega)

/-- The predecessor of a positive word is exact. -/
theorem toInt_sub_one {a : Int64} (h : 1 ≤ a) : (a - 1).toInt = a.toInt - 1 :=
  Int64.toInt_sub_of_le a 1 (by decide) h

/-- The order of words is that of their values. -/
theorem one_le_iff {a : Int64} : 1 ≤ a ↔ 1 ≤ a.toInt :=
  Int64.le_iff_toInt_le

end Word

namespace Comparison

/-- Whether `left ⋈ right` is true of integers. -/
def Holds : Comparison → Int → Int → Prop
  | eq, left, right => left = right
  | ne, left, right => left ≠ right
  | lt, left, right => left < right
  | le, left, right => left ≤ right
  | gt, left, right => right < left
  | ge, left, right => right ≤ left

/-- Comparisons of integers are decidable. -/
instance : (c : Comparison) → (left right : Int) → Decidable (c.Holds left right)
  | eq, left, right => inferInstanceAs (Decidable (left = right))
  | ne, left, right => inferInstanceAs (Decidable (left ≠ right))
  | lt, left, right => inferInstanceAs (Decidable (left < right))
  | le, left, right => inferInstanceAs (Decidable (left ≤ right))
  | gt, left, right => inferInstanceAs (Decidable (right < left))
  | ge, left, right => inferInstanceAs (Decidable (right ≤ left))

/-- A comparison of words is the comparison of their values. -/
theorem holds_iff (c : Comparison) (left right : Int64) :
    c.holds left right = true ↔ c.Holds left.toInt right.toInt := by
  cases c <;>
    simp [holds, Holds, Int64.toInt_inj, Int64.lt_iff_toInt_lt, Int64.le_iff_toInt_le]

end Comparison

namespace Domain

/-- What evaluation ensures: a range has values and not too many, characters stay on one side of the
surrogate code points, and no item occurs twice. -/
def Proper : Domain → Prop
  | intRange low high => low.toInt ≤ high.toInt ∧ high.toInt - low.toInt < sizeLimit
  | charRange low high => low ≤ high ∧ ¬ (low ≤ beforeSurrogates ∧ afterSurrogates ≤ high)
  | list items => items.Nodup
  | table items => items.Nodup

/-- The key of a position, computed with integers. -/
def exactKey : Domain → Int64 → Int
  | intRange low _, position => low.toInt + (position.toInt - 1)
  | charRange low _, position => low.toNat + (position.toInt - 1)
  | list _, position => position.toInt
  | table _, position => position.toInt

/-- The key of a constant that is compared with a value of the domain: a number is its own key, a
character has its code point, and an item has its position in the domain. -/
def exactLiteral? : Domain → Literal → Option Int
  | intRange _ _, .integer value => some value.toInt
  | charRange _ _, .integer value => some value.toInt
  | intRange _ _, .character c => some c.toNat
  | charRange _ _, .character c => some c.toNat
  | list items, .item text => ((list items).position? (.item text)).map Int64.toInt
  | table items, .item text => ((table items).position? (.item text)).map Int64.toInt
  | _, _ => none

/-- The positions of a domain are the words from 1 to its size. -/
theorem mem_positions {d : Domain} {p : Int64} : p ∈ d.positions ↔ 1 ≤ p ∧ p ≤ d.sizeWord := by
  -- a size beyond the word would be negative here, and then there is no position
  have hclamp : (d.sizeWord.toNatClampNeg : Int) = max d.sizeWord.toInt 0 := by
    rw [← Int64.toNat_toInt, Int.toNat_eq_max]
  have hlt := d.sizeWord.toNatClampNeg_lt
  rw [positions, positionsUpTo, Nat.min_self, List.mem_map, Word.one_le_iff,
    Int64.le_iff_toInt_le]
  constructor
  · rintro ⟨i, hi, rfl⟩
    have hi' : i < d.sizeWord.toNatClampNeg := List.mem_range.1 hi
    rw [Int64.toInt_ofNat_of_lt (by omega)]
    omega
  · rintro ⟨hone, hle⟩
    refine ⟨p.toInt.toNat - 1, List.mem_range.2 (by omega), ?_⟩
    have hp := p.toInt_lt
    rw [← Int64.toInt_inj, Int64.toInt_ofNat_of_lt (by omega)]
    omega

/-- The code point of a character fits the word. -/
theorem toInt_codePoint (c : Char) : (codePoint c).toInt = c.toNat := by
  have hlt : c.val.toNat < UInt32.size := c.val.toNat_lt_size
  exact Int64.toInt_ofNat_of_lt (Nat.lt_trans hlt (by decide))

/-- A number given as a word is never more than the number itself. -/
theorem toInt_ofNat_le (n : Nat) : (Int64.ofNat n).toInt ≤ n := by
  have hsize : (Int64.size : Int) = 2 ^ 64 := rfl
  rw [Int64.toInt_ofNat', Int.bmod_def, hsize]
  split <;> omega

/-- The size of a proper range of integers as a word is exact. -/
theorem toInt_sizeWord_intRange {low high : Int64} (h : (intRange low high).Proper) :
    (intRange low high).sizeWord.toInt = high.toInt - low.toInt + 1 := by
  obtain ⟨hle, hsize⟩ := h
  have hlimit : (sizeLimit : Int) = 2 ^ 20 := rfl
  have hcount : (countLimit : Int) = 2 ^ 64 - 1 := rfl
  rw [sizeWord, size, Int64.toInt_ofNat_of_lt (by omega)]
  omega

/-- The size of a proper range of characters as a word is exact. -/
theorem toInt_sizeWord_charRange {low high : Char} (h : (charRange low high).Proper) :
    (charRange low high).sizeWord.toInt = high.toNat - low.toNat + 1 := by
  have hle : low.val ≤ high.val := h.1
  have hsub : (high.val - low.val).toNat = high.val.toNat - low.val.toNat :=
    UInt32.toNat_sub_of_le _ _ hle
  have hle' : low.toNat ≤ high.toNat := UInt32.le_iff_toNat_le.1 hle
  have hlt : high.toNat < 2 ^ 32 := high.val.toNat_lt_size
  have hsize : (charRange low high).size = high.toNat - low.toNat + 1 := by
    rw [size, hsub]
    rfl
  rw [sizeWord, hsize, Int64.toInt_ofNat_of_lt (by omega)]
  omega

/-- The key of a position of a proper domain is exact. -/
theorem toInt_key {d : Domain} (hd : d.Proper) {p : Int64} (hp : p ∈ d.positions) :
    (d.key p).toInt = d.exactKey p := by
  obtain ⟨hone, hle⟩ := mem_positions.1 hp
  have hpred := Word.toInt_sub_one hone
  rw [Int64.le_iff_toInt_le] at hle
  rw [Word.one_le_iff] at hone
  cases d with
  | intRange low high =>
    -- the sum lies between the ends of the range, which are words themselves
    rw [toInt_sizeWord_intRange hd] at hle
    rw [key, exactKey, ← hpred]
    exact Word.toInt_add_of_between low high (by omega) (by omega)
  | charRange low high =>
    rw [toInt_sizeWord_charRange hd] at hle
    rw [key, exactKey, ← hpred, ← toInt_codePoint]
    refine Word.toInt_add_of_between (codePoint low) (codePoint high) (by omega) ?_
    rw [toInt_codePoint, toInt_codePoint]
    omega
  | list items => rfl
  | table items => rfl

/-- Keys ascend with positions, by as much. -/
theorem exactKey_sub (d : Domain) (p q : Int64) :
    d.exactKey p - d.exactKey q = p.toInt - q.toInt := by
  cases d <;> simp only [exactKey] <;> omega

/-- Adding an offset that does not overflow at the ends of a proper domain is exact at every
position. -/
theorem toInt_key_add {d : Domain} (hd : d.Proper) {offset : Int64}
    (hfits : Network.overflows d offset = false) {p : Int64} (hp : p ∈ d.positions) :
    (d.key p + offset).toInt = d.exactKey p + offset.toInt := by
  obtain ⟨hone, hle⟩ := mem_positions.1 hp
  -- both ends are positions, since `p` lies between them
  have hfirst : (1 : Int64) ∈ d.positions :=
    mem_positions.2 ⟨Int64.le_refl 1, Int64.le_trans hone hle⟩
  have hlast : d.sizeWord ∈ d.positions :=
    mem_positions.2 ⟨Int64.le_trans hone hle, Int64.le_refl _⟩
  simp only [Network.overflows, Bool.or_eq_false_iff, Option.isNone_eq_false_iff,
    Option.isSome_iff_exists, Word.addExact?_eq_some_iff, toInt_key hd hfirst,
    toInt_key hd hlast] at hfits
  obtain ⟨⟨first, hfirst'⟩, last, hlast'⟩ := hfits
  have hlow := d.exactKey_sub p 1
  have hhigh := d.exactKey_sub d.sizeWord p
  rw [Word.one_le_iff] at hone
  rw [Int64.le_iff_toInt_le] at hle
  have h1 : (1 : Int64).toInt = 1 := rfl
  rw [← toInt_key hd hp] at hlow hhigh ⊢
  exact Word.toInt_add_of_between first last (by omega) (by omega)

/-- The key of a constant is the one computed with integers. -/
theorem literalKey?_map_toInt (d : Domain) (l : Literal) :
    (d.literalKey? l).map Int64.toInt = d.exactLiteral? l := by
  cases d <;> cases l <;> simp [literalKey?, exactLiteral?, position?, toInt_codePoint]

/-- A position of a list that is not beyond its length as a word has an item. -/
private theorem getElem?_isSome {items : List String} {p : Int64} (hone : 1 ≤ p)
    (hle : p ≤ Int64.ofNat items.length) : (items[(p - 1).toNatClampNeg]?).isSome = true := by
  rw [Int64.le_iff_toInt_le] at hle
  have hlen := toInt_ofNat_le items.length
  have hpred := Word.toInt_sub_one hone
  rw [Word.one_le_iff] at hone
  have hlt : (p - 1).toNatClampNeg < items.length := by
    rw [← Int64.toNat_toInt, hpred]
    omega
  rw [List.getElem?_eq_getElem hlt]
  rfl

/-- A code point between the ends of a proper range is a character. -/
private theorem isValidChar_between {low high : Char} (h : (charRange low high).Proper) {n : UInt32}
    (hlow : low.toNat ≤ n.toNat) (hhigh : n.toNat ≤ high.toNat) : n.isValidChar := by
  obtain ⟨-, hside⟩ := h
  rw [Char.le_def, Char.le_def, UInt32.le_iff_toNat_le, UInt32.le_iff_toNat_le] at hside
  have hbefore : beforeSurrogates.val.toNat = 0xd7ff := rfl
  have hafter : afterSurrogates.val.toNat = 0xe000 := rfl
  rw [hbefore, hafter] at hside
  have hvl : low.toNat < 0xd800 ∨ 0xdfff < low.toNat ∧ low.toNat < 0x110000 := low.valid
  have hvh : high.toNat < 0xd800 ∨ 0xdfff < high.toNat ∧ high.toNat < 0x110000 := high.valid
  -- both ends are below the surrogates or both are above, and so is what lies between
  show n.toNat < 0xd800 ∨ 0xdfff < n.toNat ∧ n.toNat < 0x110000
  have hlow' : low.val.toNat = low.toNat := rfl
  have hhigh' : high.val.toNat = high.toNat := rfl
  omega

/-- The value at a number is computed exactly when the number is a position. -/
theorem mem_positions_iff_inside {d : Domain} {p : Int64} :
    p ∈ d.positions ↔ ¬ (p < 1 ∨ d.sizeWord < p) := by
  rw [mem_positions, Int64.lt_iff_toInt_lt, Int64.lt_iff_toInt_lt, Int64.le_iff_toInt_le,
    Int64.le_iff_toInt_le]
  omega

/-- Outside the positions there are no values. -/
theorem value?_eq_none {d : Domain} {p : Int64} (hp : p ∉ d.positions) : d.value? p = none := by
  rw [mem_positions_iff_inside, not_not] at hp
  exact if_pos hp

theorem value?_intRange {low high p : Int64} (hp : p ∈ (intRange low high).positions) :
    (intRange low high).value? p = some (.int ((intRange low high).key p)) := by
  rw [value?, if_neg (mem_positions_iff_inside.1 hp)]
  rfl

/-- A position of a proper range of characters has the character of its key. -/
theorem value?_charRange {low high : Char} (hd : (charRange low high).Proper) {p : Int64}
    (hp : p ∈ (charRange low high).positions) :
    ∃ c : Char, (charRange low high).value? p = some (.char c) ∧
      (c.toNat : Int) = (charRange low high).exactKey p := by
  obtain ⟨hone, hle⟩ := mem_positions.1 hp
  rw [Int64.le_iff_toInt_le, toInt_sizeWord_charRange hd] at hle
  have hpred := Word.toInt_sub_one hone
  rw [Word.one_le_iff] at hone
  have hlt : high.toNat < 2 ^ 32 := high.val.toNat_lt_size
  -- the code point is computed in 32 bits, which the end of the range does not exceed
  have hoffset : (p - 1).toUInt64.toUInt32.toNat = (p.toInt - 1).toNat := by
    have hnonneg : 0 ≤ p - 1 := by
      rw [Int64.le_iff_toInt_le, hpred]
      exact Int.sub_nonneg.2 hone
    rw [UInt64.toNat_toUInt32, Int64.toNat_toUInt64_of_le hnonneg, ← Int64.toNat_toInt, hpred]
    exact Nat.mod_eq_of_lt (by omega)
  have hsum : (low.val + (p - 1).toUInt64.toUInt32).toNat = low.toNat + (p.toInt - 1).toNat := by
    rw [UInt32.toNat_add, hoffset]
    exact Nat.mod_eq_of_lt (show low.toNat + _ < _ by omega)
  have hvalid : (low.val + (p - 1).toUInt64.toUInt32).isValidChar :=
    isValidChar_between hd (by omega) (by omega)
  refine ⟨⟨_, hvalid⟩, ?_, ?_⟩
  · rw [value?, if_neg (mem_positions_iff_inside.1 hp)]
    simp only [charOfCodePoint?, dif_pos hvalid]
    rfl
  · show ((low.val + (p - 1).toUInt64.toUInt32).toNat : Int) = low.toNat + (p.toInt - 1)
    rw [hsum]
    omega

/-- Every position of a proper domain has a value. -/
theorem value?_isSome {d : Domain} (hd : d.Proper) {p : Int64} (hp : p ∈ d.positions) :
    (d.value? p).isSome = true := by
  cases d with
  | intRange low high =>
    rw [value?_intRange hp]
    rfl
  | charRange low high =>
    obtain ⟨c, hc, -⟩ := value?_charRange hd hp
    rw [hc]
    rfl
  | list items | table items =>
    obtain ⟨hone, hle⟩ := mem_positions.1 hp
    rw [value?, if_neg (mem_positions_iff_inside.1 hp)]
    simpa using getElem?_isSome hone hle

end Domain

end FiniteDomain
