/-!
# Decimal numbers

Writing naturals and integers in decimal and reading a run of decimal digits. Numbers have no
leading zeros when written; leading zeros are accepted when read.

* `readDigits`: the longest run of digits, its value and the rest.
* `value_digits`: the digits written for a number have that number as their value.
* `ofNat_inj`: different numbers are written differently.
-/

namespace FiniteDomain.Decimal

/-- The decimal digits of a natural number, most significant first. -/
def digits (n : Nat) : List Char :=
  Nat.toDigits 10 n

/-- A natural number in decimal. -/
def ofNat (n : Nat) : String :=
  String.ofList (digits n)

/-- An integer in decimal, with a leading minus sign when negative. -/
def ofInt (n : Int) : String :=
  if n < 0 then "-" ++ ofNat n.natAbs else ofNat n.natAbs

/-- A signed word in decimal. -/
def ofInt64 (n : Int64) : String :=
  ofInt n.toInt

/-- An unsigned word in decimal. -/
def ofUInt64 (n : UInt64) : String :=
  ofNat n.toNat

/-- The value of a run of decimal digits. -/
def value (ds : List Char) : Nat :=
  Nat.ofDigitChars 10 ds 0

/-- The digits written for a number have that number as their value. -/
@[simp]
theorem value_digits (n : Nat) : value (digits n) = n :=
  Nat.ofDigitChars_toDigits (by decide) (by decide)

/-- Different numbers are written differently. -/
theorem ofNat_inj {m n : Nat} : ofNat m = ofNat n ↔ m = n := by
  refine ⟨fun h => ?_, congrArg ofNat⟩
  have hdigits : digits m = digits n := by
    simpa [ofNat] using congrArg String.toList h
  rw [← value_digits m, hdigits, value_digits]

/-- The value of the longest non-empty run of digits and the text after it. -/
def readDigits (cs : List Char) : Option (Nat × List Char) :=
  let ds := cs.takeWhile Char.isDigit
  if ds.isEmpty then none else some (value ds, cs.dropWhile Char.isDigit)

end FiniteDomain.Decimal
