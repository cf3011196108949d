import FeatureAtlas.Decimal.Binary64
import FeatureAtlas.Yaml.Scalar

/-!
# What plain scalars stand for

A scalar without quotes may stand for the absence of a value, a truth value or
a number; otherwise it is text. A decimal number with an idle zero in front is
text as well.
-/

namespace FeatureAtlas.Yaml

/-- What a plain scalar stands for. -/
inductive Kind
  | absent
  | boolean
  /-- An integer from zero that fits into 64 bits. -/
  | natural (value : Nat)
  /-- An integer with a minus sign that fits into 64 bits. -/
  | negative
  /-- An integer that fits into 128 bits, but not into 64. -/
  | wide
  | decimal
  | text
deriving DecidableEq, Repr

namespace Kind

/-! ## Integers -/

/-- The value of a digit of a base. -/
def digit? (base : Nat) (character : Char) : Option Nat :=
  (hexDigit? character).filter (· < base)

/-- The value of a row of digits, if it has nothing else and is not empty. -/
def digits? (base : Nat) (characters : List Char) : Option Nat :=
  if characters.isEmpty then none
  else characters.foldlM (fun value character =>
    (digit? base character).map fun digit => value * base + digit) 0

/-- Whether a row of digits begins with a zero that adds nothing. -/
def hasIdleZero : List Char → Bool
  | '0' :: next :: rest => (next :: rest).all fun character => (digit? 10 character).isSome
  | _ => false

/-- The value of an integer without a sign. -/
def unsigned? : List Char → Option Nat
  | '0' :: 'x' :: rest => digits? 16 rest
  | '0' :: 'o' :: rest => digits? 8 rest
  | '0' :: 'b' :: rest => digits? 2 rest
  | characters => if hasIdleZero characters then none else digits? 10 characters

/-- A text without the sign in front, and whether that is a minus. -/
def splitSign : List Char → Bool × List Char
  | '-' :: rest => (true, rest)
  | '+' :: rest => (false, rest)
  | characters => (false, characters)

/-- What an integer of at most 128 bits stands for. -/
def ofInteger? (isNegative : Bool) (magnitude : Nat) : Option Kind :=
  if isNegative then
    if magnitude ≤ Nat.pow 2 63 then some .negative
    else if magnitude ≤ Nat.pow 2 127 then some .wide
    else none
  else
    if magnitude < Nat.pow 2 64 then some (.natural magnitude)
    else if magnitude < Nat.pow 2 128 then some .wide
    else none

/-! ## Decimal numbers -/

/-- The digits in front of a text and what follows them. -/
def splitDigits (characters : List Char) : List Char × List Char :=
  (characters.takeWhile fun character => (digit? 10 character).isSome,
    characters.dropWhile fun character => (digit? 10 character).isSome)

/-- The digits before and after the point of a number, and what follows them. -/
def splitFraction (characters : List Char) : List Char × List Char × List Char :=
  let (whole, rest) := splitDigits characters
  match rest with
  | '.' :: rest =>
    let (fraction, rest) := splitDigits rest
    (whole, fraction, rest)
  | _ => (whole, [], rest)

/-- The exponent at the end of a number; none is zero. -/
def exponent? : List Char → Option Int
  | [] => some 0
  | mark :: rest =>
    if mark == 'e' || mark == 'E' then
      let (isNegative, digits) := splitSign rest
      (digits? 10 digits).map fun value => if isNegative then -(value : Int) else value
    else none

/-- Whether `significand * 10 ^ exponent` is below the range of numbers that are too large. -/
def isFinite (significand : Nat) (exponent : Int) : Bool :=
  let position := (Nat.toDigits 10 significand).length + exponent
  if significand = 0 || position ≤ 308 then true
  else if 309 < position then false
  else
    (Binary64.nearest? false (significand * Nat.pow 10 exponent.toNat)
      (Nat.pow 10 (-exponent).toNat)).isSome

/-- Whether a text without a sign is a decimal number that is not too large. -/
def isDecimal (characters : List Char) : Bool :=
  let (whole, fraction, rest) := splitFraction characters
  match digits? 10 (whole ++ fraction), exponent? rest with
  | some significand, some exponent => isFinite significand (exponent - fraction.length)
  | _, _ => false

def infinities : List String :=
  [".inf", ".Inf", ".INF"]

/-- The spellings of what is no number. -/
def undefinedNumbers : List String :=
  [".nan", ".NaN", ".NAN"]

/-- The spellings of the absence of a value. -/
def absences : List String :=
  ["", "~", "null", "Null", "NULL"]

def booleans : List String :=
  ["true", "True", "TRUE", "false", "False", "FALSE"]

/-- What a text stands for when it is written without quotes. -/
def ofPlain (text : String) : Kind :=
  let (isNegative, characters) := splitSign text.toList
  if absences.contains text then .absent
  else if booleans.contains text then .boolean
  else
    match (unsigned? characters).bind (ofInteger? isNegative) with
    | some kind => kind
    | none =>
      if hasIdleZero characters then .text
      else if infinities.contains (String.ofList characters) ||
          undefinedNumbers.contains text || isDecimal characters then .decimal
      else .text

end Kind

end FeatureAtlas.Yaml
