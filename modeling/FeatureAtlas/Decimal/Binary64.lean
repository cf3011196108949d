/-!
# Binary floating-point numbers of 64 bits

A finite number is a sign, a significand of at most 53 bits and a power of two
not below -1074. Everything is exact arithmetic on natural numbers: a quotient
is rounded to the nearest number, a tie goes to the even significand, and what
is too large is refused.
-/

namespace FeatureAtlas

/-- The finite number `± significand * 2 ^ exponent`. -/
structure Binary64 where
  negative : Bool
  significand : Nat
  exponent : Int
deriving DecidableEq, Repr, Inhabited

namespace Binary64

/-- The number of bits of a full significand. -/
def precision : Nat := 53

/-- The least power of two that a number is a multiple of. -/
def leastExponent : Int := -1074

/-- The largest power of two that goes with a full significand. -/
def greatestExponent : Int := 971

def zero (negative : Bool) : Binary64 :=
  ⟨negative, 0, leastExponent⟩

/-- The quotient rounded to the nearest natural number, a tie to the even one. -/
def roundQuotient (numerator denominator : Nat) : Nat :=
  let quotient := numerator / denominator
  let twice := 2 * (numerator % denominator)
  if twice < denominator then quotient
  else if denominator < twice then quotient + 1
  else quotient + quotient % 2

/-- The quotient `numerator / (denominator * 2 ^ exponent)` as a fraction of natural numbers. -/
def scaled (numerator denominator : Nat) (exponent : Int) : Nat × Nat :=
  (numerator * Nat.pow 2 (-exponent).toNat, denominator * Nat.pow 2 exponent.toNat)

/-- The power of two of the last bit of a positive fraction. -/
def lastBit (numerator denominator : Nat) : Int :=
  let guess : Int := (numerator.log2 : Int) - denominator.log2 - (precision - 1 : Nat)
  let (high, low) := scaled numerator denominator guess
  let exponent := if high / low < Nat.pow 2 (precision - 1) then guess - 1 else guess
  max exponent leastExponent

/-- The number nearest to a fraction, if that is not too large. -/
def nearest? (negative : Bool) (numerator denominator : Nat) : Option Binary64 :=
  if numerator = 0 then some (zero negative)
  else
    let exponent := lastBit numerator denominator
    let (high, low) := scaled numerator denominator exponent
    let rounded := roundQuotient high low
    let (significand, exponent) :=
      if rounded = Nat.pow 2 precision then (Nat.pow 2 (precision - 1), exponent + 1)
      else (rounded, exponent)
    if exponent ≤ greatestExponent then some ⟨negative, significand, exponent⟩ else none

/-- The magnitude as a fraction of natural numbers. -/
def fraction (number : Binary64) : Nat × Nat :=
  (number.significand * Nat.pow 2 number.exponent.toNat, Nat.pow 2 (-number.exponent).toNat)

/-- The product with the number nearest to a power of ten, if it is not too large. -/
def timesPowerOfTen? (number : Binary64) (power : Nat) : Option Binary64 := do
  let factor ← nearest? false (Nat.pow 10 power) 1
  let (top, bottom) := number.fraction
  let (top', bottom') := factor.fraction
  nearest? number.negative (top * top') (bottom * bottom')

/-- The quotient by the number nearest to a power of ten. -/
def overPowerOfTen? (number : Binary64) (power : Nat) : Option Binary64 := do
  let factor ← nearest? false (Nat.pow 10 power) 1
  let (top, bottom) := number.fraction
  let (top', bottom') := factor.fraction
  nearest? number.negative (top * bottom') (bottom * top')

/-- The greatest power of ten that is a number. -/
def greatestPowerOfTen : Nat := 308

/-- Divide by powers of ten in steps that are numbers themselves. -/
def divideInSteps : Nat → Binary64 → Nat → Option Binary64
  | 0, number, _ => some (zero number.negative)
  | steps + 1, number, power =>
    if power ≤ greatestPowerOfTen then number.overPowerOfTen? power
    else if number.significand = 0 then some number
    else do
      let next ← number.overPowerOfTen? greatestPowerOfTen
      divideInSteps steps next (power - greatestPowerOfTen)

/--
The number read from decimal digits and a power of ten, each step of the
computation rounded on its own: the digits first, then the product with or the
quotient by the power. There is none if the product is too large.
-/
def ofDecimal? (negative : Bool) (digits : Nat) (power : Int) : Option Binary64 := do
  let number ← nearest? negative digits 1
  if 0 ≤ power then
    if power ≤ greatestPowerOfTen then number.timesPowerOfTen? power.toNat
    else if number.significand = 0 then some number
    else none
  else
    divideInSteps ((-power).toNat / greatestPowerOfTen + 1) number (-power).toNat

end Binary64

end FeatureAtlas
