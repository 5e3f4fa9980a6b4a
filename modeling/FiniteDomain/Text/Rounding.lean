import FiniteDomain.Text.Decimal

/-!
# Rounding quotients

A ratio of two counts is shown with two decimals. The ratio is the quotient of the counts in binary
floating point with 53 significant bits, and it is that quotient, exactly, that is rounded to two
decimals. All roundings are to nearest, ties to even.

* `roundDiv`: the nearest natural number to a quotient.
* `nearestBinary`: the nearest number with 53 significant bits.
* `ratioText`: the ratio of two counts as text.
-/

namespace FiniteDomain.Rounding

/-- The natural number nearest to `num / den`; of two, the even one. -/
def roundDiv (num den : Nat) : Nat :=
  let floor := num / den
  let twice := 2 * (num % den)
  if twice < den then floor
  else if den < twice then floor + 1
  else floor + floor % 2

/-- The number of significant bits. -/
def significantBits : Nat :=
  53

/-- The exponent of the leading bit of a positive quotient. -/
def leadingExponent (num den : Nat) : Int :=
  let guess : Int := num.log2 - den.log2
  if den <<< guess.toNat ≤ num <<< (-guess).toNat then guess else guess - 1

/-- The number with 53 significant bits that is nearest to `num / den`, as a fraction. -/
def nearestBinary (num den : Nat) : Nat × Nat :=
  if num = 0 then (0, 1)
  else
    let shift := leadingExponent num den - (significantBits - 1)
    let up := 1 <<< shift.toNat
    let down := 1 <<< (-shift).toNat
    (roundDiv (num * down) (den * up) * up, down)

/-- The quotient of two counts in binary floating point, as a fraction; 0 when the second is 0. -/
def ratio (num den : Nat) : Nat × Nat :=
  if den = 0 then (0, 1)
  else
    let a := nearestBinary num 1
    let b := nearestBinary den 1
    nearestBinary (a.1 * b.2) (a.2 * b.1)

/-- A fraction with two decimals. -/
def twoPlaces (fraction : Nat × Nat) : String :=
  let hundredths := roundDiv (fraction.1 * 100) fraction.2
  Decimal.ofNat (hundredths / 100) ++ "." ++
    String.ofList [Nat.digitChar (hundredths / 10 % 10), Nat.digitChar (hundredths % 10)]

/-- The ratio of two counts with two decimals. -/
def ratioText (num den : Nat) : String :=
  twoPlaces (ratio num den)

end FiniteDomain.Rounding
