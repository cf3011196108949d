import FeatureAtlas.Json.Problem
import FeatureAtlas.Text.Utf8

/-!
# Scanning JSON bytes

The leaves of the grammar: white space, literals, strings and numbers. A
reader takes a value from the front of the input and leaves the rest.
-/

namespace FeatureAtlas.Json

/-- A reader takes a value from the front of the input and leaves the rest. -/
abbrev Reader (α : Type) := Bytes → Except Problem (α × Bytes)

/-- The bytes with a meaning of their own. -/
def quoteByte : UInt8 := 0x22
def commaByte : UInt8 := 0x2C
def minusByte : UInt8 := 0x2D
def pointByte : UInt8 := 0x2E
def colonByte : UInt8 := 0x3A
def openBracket : UInt8 := 0x5B
def backslashByte : UInt8 := 0x5C
def closeBracket : UInt8 := 0x5D
def openBrace : UInt8 := 0x7B
def closeBrace : UInt8 := 0x7D

/-- Space, tab, line feed and carriage return. -/
def isSpaceByte (byte : UInt8) : Bool :=
  byte == 0x20 || byte == 0x09 || byte == 0x0A || byte == 0x0D

/-- The input from its first byte that is not white space. -/
def skipSpace (input : Bytes) : Bytes :=
  input.dropWhile isSpaceByte

/-! ## Literals -/

/-- Take the remaining letters of a literal. -/
def takeLetters : Bytes → Bytes → Except Problem Bytes
  | [], input => .ok input
  | _ :: _, [] => .error .endInValue
  | letter :: letters, byte :: rest =>
    if byte = letter then takeLetters letters rest else .error .expectedLiteral

/-- The letters of `null` after the first. -/
def nullLetters : Bytes := [0x75, 0x6C, 0x6C]

def trueLetters : Bytes := [0x72, 0x75, 0x65]

def falseLetters : Bytes := [0x61, 0x6C, 0x73, 0x65]

/-! ## Strings -/

/-- The value of a hexadecimal digit in either case. -/
def hexValue? (byte : UInt8) : Option Nat :=
  let code := byte.toNat
  if 0x30 ≤ code ∧ code ≤ 0x39 then some (code - 0x30)
  else if 0x41 ≤ code ∧ code ≤ 0x46 then some (code - 0x37)
  else if 0x61 ≤ code ∧ code ≤ 0x66 then some (code - 0x57)
  else none

/-- The value of four hexadecimal digits. -/
def hexQuad? (first second third fourth : UInt8) : Option Nat := do
  let high ← hexValue? first
  let upper ← hexValue? second
  let lower ← hexValue? third
  let low ← hexValue? fourth
  some (((high * 16 + upper) * 16 + lower) * 16 + low)

/-- The byte that a one-letter escape stands for. -/
def shortEscape? (mark : UInt8) : Option UInt8 :=
  if mark = 0x22 ∨ mark = 0x5C ∨ mark = 0x2F then some mark
  else if mark = 0x62 then some 0x08
  else if mark = 0x66 then some 0x0C
  else if mark = 0x6E then some 0x0A
  else if mark = 0x72 then some 0x0D
  else if mark = 0x74 then some 0x09
  else none

/-- The mark of an escape by number. -/
def unicodeMark : UInt8 := 0x75

/-- Whether a 16-bit unit is the first of a pair. -/
def isLeadingSurrogate (unit : Nat) : Bool :=
  0xD800 ≤ unit && unit ≤ 0xDBFF

/-- Whether a 16-bit unit is the second of a pair. -/
def isTrailingSurrogate (unit : Nat) : Bool :=
  0xDC00 ≤ unit && unit ≤ 0xDFFF

def codePointBytes (code : Nat) : Bytes :=
  String.utf8EncodeChar (Char.ofNat code)

/-- The bytes of the code point that a pair of 16-bit units stands for. -/
def pairBytes (leading trailing : Nat) : Bytes :=
  codePointBytes (0x10000 + (leading - 0xD800) * 0x400 + (trailing - 0xDC00))

/-- Put bytes in front of what a scan has read. -/
def prepend (bytes : Bytes) :
    Except Problem (Bytes × Bytes) → Except Problem (Bytes × Bytes)
  | .ok (content, rest) => .ok (bytes ++ content, rest)
  | .error problem => .error problem

/--
The content of a string after its opening quote, with escapes resolved, and
what follows the closing quote.
-/
def scanContent : Bytes → Except Problem (Bytes × Bytes)
  | [] => .error .endInText
  | byte :: rest =>
    if byte = quoteByte then .ok ([], rest)
    else if byte = backslashByte then
      match rest with
      | [] => .error .endInText
      | mark :: rest =>
        match shortEscape? mark with
        | some value => prepend [value] (scanContent rest)
        | none =>
          if mark = unicodeMark then
            match rest with
            | first :: second :: third :: fourth :: rest =>
              match hexQuad? first second third fourth with
              | none => .error .invalidEscape
              | some unit =>
                if isTrailingSurrogate unit then .error .loneSurrogate
                else if isLeadingSurrogate unit then
                  match rest with
                  | [] => .error .endInText
                  | slash :: rest =>
                    if slash = backslashByte then
                      match rest with
                      | [] => .error .endInText
                      | mark :: rest =>
                        if mark = unicodeMark then
                          match rest with
                          | first :: second :: third :: fourth :: rest =>
                            match hexQuad? first second third fourth with
                            | none => .error .invalidEscape
                            | some trailing =>
                              if isTrailingSurrogate trailing then
                                prepend (pairBytes unit trailing) (scanContent rest)
                              else .error .loneSurrogate
                          | _ => .error .endInText
                        else .error .brokenPair
                    else .error .brokenPair
                else prepend (codePointBytes unit) (scanContent rest)
            | _ => .error .endInText
          else .error .invalidEscape
    else if byte.toNat < 0x20 then .error .controlCharacter
    else prepend [byte] (scanContent rest)

/-- Read a string after its opening quote. -/
def scanText (input : Bytes) : Except Problem (String × Bytes) := do
  let (content, rest) ← scanContent input
  match Utf8.text? content with
  | some text => .ok (text, rest)
  | none => .error .invalidCodePoint

/-- Pass over a string after its opening quote; escapes need only have their form. -/
def passText : Bytes → Except Problem Bytes
  | [] => .error .endInText
  | byte :: rest =>
    if byte = quoteByte then .ok rest
    else if byte = backslashByte then
      match rest with
      | [] => .error .endInText
      | mark :: rest =>
        match shortEscape? mark with
        | some _ => passText rest
        | none =>
          if mark = unicodeMark then
            match rest with
            | first :: second :: third :: fourth :: rest =>
              match hexQuad? first second third fourth with
              | none => .error .invalidEscape
              | some _ => passText rest
            | _ => .error .endInText
          else .error .invalidEscape
    else if byte.toNat < 0x20 then .error .controlCharacter
    else passText rest

/-! ## Numbers -/

def isDigitByte (byte : UInt8) : Bool :=
  0x30 ≤ byte.toNat && byte.toNat ≤ 0x39

def isExponentMark (byte : UInt8) : Bool :=
  byte == 0x65 || byte == 0x45

def digitValue (byte : UInt8) : Nat :=
  byte.toNat - 0x30

/-- The greatest significand that is kept. -/
def greatestSignificand : Nat := Nat.pow 2 64 - 1

/-- The greatest exponent that is told apart from larger ones. -/
def greatestExponent : Nat := Nat.pow 2 31 - 1

/-- Append digits to a significand while it stays in range, and count them. -/
def absorb : Nat → Nat → Bytes → Nat × Nat
  | significand, count, [] => (significand, count)
  | significand, count, digit :: rest =>
    let next := significand * 10 + digitValue digit
    if greatestSignificand < next then (significand, count)
    else absorb next (count + 1) rest

def digitsValue (digits : Bytes) : Nat :=
  digits.foldl (fun value digit => value * 10 + digitValue digit) 0

/-- The floating-point number of a significand and a power of ten. -/
def floatOf (negative : Bool) (significand : Nat) (power : Int) :
    Except Problem Number :=
  match Binary64.ofDecimal? negative significand power with
  | some value => .ok (.float value)
  | none => .error .numberTooLarge

/-- Read the exponent after its mark. -/
def scanExponent (negative : Bool) (significand : Nat) (power : Int) (input : Bytes) :
    Except Problem (Number × Bytes) :=
  let (down, unsigned) :=
    match input with
    | 0x2B :: rest => (false, rest)
    | 0x2D :: rest => (true, rest)
    | _ => (false, input)
  match unsigned with
  | [] => .error .endInValue
  | first :: _ =>
    if isDigitByte first then
      let digits := unsigned.takeWhile isDigitByte
      let rest := unsigned.dropWhile isDigitByte
      let exponent := digitsValue digits
      if greatestExponent < exponent then
        if significand ≠ 0 ∧ !down then .error .numberTooLarge
        else .ok (.float (.zero negative), rest)
      else do
        let number ← floatOf negative significand
          (if down then power - exponent else power + exponent)
        .ok (number, rest)
    else .error .invalidNumber

/-- Read the digits after the point. -/
def scanFraction (negative : Bool) (significand : Nat) (power : Int) (input : Bytes) :
    Except Problem (Number × Bytes) :=
  let digits := input.takeWhile isDigitByte
  let rest := input.dropWhile isDigitByte
  if digits.isEmpty then
    .error (if rest.isEmpty then .endInValue else .invalidNumber)
  else
    let (significand, count) := absorb significand 0 digits
    let power := power - count
    match rest with
    | [] => do .ok (← floatOf negative significand power, [])
    | mark :: after =>
      if isExponentMark mark then scanExponent negative significand power after
      else do .ok (← floatOf negative significand power, rest)

/-- Read what follows the integer digits; `dropped` of them did not fit. -/
def scanNumberTail (negative : Bool) (significand dropped : Nat) (rest : Bytes) :
    Except Problem (Number × Bytes) :=
  let whole : Except Problem Number :=
    if dropped ≠ 0 then floatOf negative significand dropped
    else if !negative then .ok (.integer significand)
    else if significand ≠ 0 ∧ significand ≤ Nat.pow 2 63 then .ok (.integer (-significand))
    else floatOf negative significand 0
  match rest with
  | [] => do .ok (← whole, [])
  | mark :: after =>
    if mark = pointByte then scanFraction negative significand dropped after
    else if isExponentMark mark then scanExponent negative significand dropped after
    else do .ok (← whole, rest)

/-- Read a number after its sign. -/
def scanNumber (negative : Bool) (input : Bytes) : Except Problem (Number × Bytes) :=
  match input with
  | [] => .error .endInValue
  | first :: rest =>
    if first = 0x30 then
      match rest with
      | next :: _ =>
        if isDigitByte next then .error .invalidNumber
        else scanNumberTail negative 0 0 rest
      | [] => scanNumberTail negative 0 0 rest
    else if isDigitByte first then
      let digits := input.takeWhile isDigitByte
      let (significand, count) := absorb 0 0 digits
      scanNumberTail negative significand (digits.length - count)
        (input.dropWhile isDigitByte)
    else .error .invalidNumber

/-- Pass over an exponent after its mark. -/
def passExponent (input : Bytes) : Except Problem Bytes :=
  let unsigned :=
    match input with
    | 0x2B :: rest => rest
    | 0x2D :: rest => rest
    | _ => input
  match unsigned with
  | first :: rest =>
    if isDigitByte first then .ok (rest.dropWhile isDigitByte)
    else .error .invalidNumber
  | [] => .error .invalidNumber

def passOptionalExponent (input : Bytes) : Except Problem Bytes :=
  match input with
  | mark :: rest => if isExponentMark mark then passExponent rest else .ok input
  | [] => .ok input

/-- Pass over a fraction and an exponent if they follow. -/
def passNumberTail (input : Bytes) : Except Problem Bytes :=
  match input with
  | mark :: rest =>
    if mark = pointByte then
      match rest with
      | first :: _ =>
        if isDigitByte first then passOptionalExponent (rest.dropWhile isDigitByte)
        else .error .invalidNumber
      | [] => .error .invalidNumber
    else passOptionalExponent input
  | [] => .ok input

/-- Pass over a number after its sign; its size does not matter. -/
def passNumber (input : Bytes) : Except Problem Bytes :=
  match input with
  | first :: rest =>
    if first = 0x30 then
      match rest with
      | next :: _ => if isDigitByte next then .error .invalidNumber else passNumberTail rest
      | [] => .ok []
    else if isDigitByte first then passNumberTail (rest.dropWhile isDigitByte)
    else .error .invalidNumber
  | [] => .error .invalidNumber

end FeatureAtlas.Json
