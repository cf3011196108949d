import FeatureAtlas.Decimal.Binary64

/-!
# Shortest decimal text

A number is shown with the fewest decimal digits that read back as the same
number, and of those the nearest ones. Magnitudes from `1e-5` to below `1e16`
are written positionally, always with a point; others with a signed exponent
of at least two digits.
-/

namespace FeatureAtlas.Decimal

/-- Compare two fractions of natural numbers with positive denominators. -/
def compareFractions (left right : Nat × Nat) : Ordering :=
  compare (left.1 * right.2) (right.1 * left.2)

/-- The fraction `count * 10 ^ power`. -/
def gridPoint (count : Nat) (power : Int) : Nat × Nat :=
  (count * Nat.pow 10 power.toNat, Nat.pow 10 (-power).toNat)

/-- The reals that round to a positive number: the two ends, and whether they belong to it. -/
structure Interval where
  low : Nat × Nat
  high : Nat × Nat
  closed : Bool

def interval (number : Binary64) : Interval :=
  let quarter (count : Nat) : Nat × Nat :=
    (count * Nat.pow 2 (number.exponent - 2).toNat, Nat.pow 2 (2 - number.exponent).toNat)
  let atPower := number.significand = Nat.pow 2 (Binary64.precision - 1) ∧
    Binary64.leastExponent < number.exponent
  ⟨quarter (4 * number.significand - if atPower then 1 else 2),
    quarter (4 * number.significand + 2), number.significand % 2 == 0⟩

/-- Whether a fraction lies in an interval. -/
def Interval.contains (range : Interval) (point : Nat × Nat) : Bool :=
  match compareFractions range.low point, compareFractions point range.high with
  | .lt, .lt => true
  | .eq, .lt | .lt, .eq => range.closed
  | _, _ => false

/-- The exponent of the leading decimal digit of a positive fraction. -/
def leadingPower (value : Nat × Nat) : Int :=
  let bits : Int := (value.1.log2 : Int) - value.2.log2
  let guess : Int := (bits - 1) * 30103 / 100000
  let candidates := [guess + 2, guess + 1, guess, guess - 1]
  (candidates.find? fun power =>
    compareFractions (gridPoint 1 power) value != .gt).getD guess

/--
Of the two multiples of a power of ten around a number, the nearer one that
reads back; of two equally near ones the even one.
-/
def neighbour? (number : Binary64) (power : Int) : Option Nat :=
  let value := number.fraction
  let range := interval number
  let below := (value.1 * Nat.pow 10 (-power).toNat) / (value.2 * Nat.pow 10 power.toNat)
  let above := below + 1
  match range.contains (gridPoint below power), range.contains (gridPoint above power) with
  | true, true =>
    let middle : Nat × Nat :=
      let point := gridPoint (2 * below + 1) power
      (point.1, 2 * point.2)
    match compareFractions value middle with
    | .lt => some below
    | .gt => some above
    | .eq => some (if below % 2 = 0 then below else above)
  | true, false => some below
  | false, true => some above
  | false, false => none

/-- The coarsest grid with a point that reads back, among those of `count` digits and more. -/
def shortestFrom (number : Binary64) (leading : Int) : Nat → Nat → Nat × Int
  | 0, _ => (number.significand, number.exponent)
  | tries + 1, count =>
    let power := leading - (count - 1 : Nat)
    match neighbour? number power with
    | some digits => (digits, power)
    | none => shortestFrom number leading tries (count + 1)

/-- Drop the trailing zeros of the digits. -/
def withoutTrailingZeros : Nat → Nat × Int → Nat × Int
  | 0, parts => parts
  | tries + 1, (digits, power) =>
    if digits % 10 = 0 ∧ digits ≠ 0 then
      withoutTrailingZeros tries (digits / 10, power + 1)
    else (digits, power)

/-- The digits and the power of ten that show a positive number. -/
def shortest (number : Binary64) : Nat × Int :=
  withoutTrailingZeros 20 <|
    shortestFrom number (leadingPower number.fraction) 17 1

def digitsOf (number : Nat) : List Char :=
  Nat.toDigits 10 number

def leastPositional : Int := -5

def greatestPositional : Int := 15

/-- An exponent with its sign and at least two digits. -/
def exponentText (exponent : Int) : List Char :=
  let digits := digitsOf exponent.natAbs
  let padded := if digits.length < 2 then '0' :: digits else digits
  (if exponent < 0 then '-' else '+') :: padded

/-- The text of a positive number given by digits and a power of ten. -/
def layOut (digits : List Char) (power : Int) : List Char :=
  let exponent := power + digits.length - 1
  if leastPositional ≤ exponent ∧ exponent ≤ greatestPositional then
    if 0 ≤ power then
      digits ++ List.replicate power.toNat '0' ++ ['.', '0']
    else if 0 ≤ exponent then
      digits.take (exponent.toNat + 1) ++ '.' :: digits.drop (exponent.toNat + 1)
    else
      ['0', '.'] ++ List.replicate (-exponent - 1).toNat '0' ++ digits
  else
    match digits with
    | [digit] => digit :: 'e' :: exponentText exponent
    | first :: rest => first :: '.' :: rest ++ 'e' :: exponentText exponent
    | [] => []

/-- The shortest text of a number. -/
def text (number : Binary64) : String :=
  let sign := if number.negative then ['-'] else []
  if number.significand = 0 then
    String.ofList (sign ++ ['0', '.', '0'])
  else
    let (digits, power) := shortest number
    String.ofList (sign ++ layOut (digitsOf digits) power)

end FeatureAtlas.Decimal
