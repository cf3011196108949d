import FeatureAtlas.Yaml.Kind

/-!
# Writing scalars

A text is written without quotes where it reads back as the same text. Single
quotes are for what would stand for something else or would not stay one
scalar, double quotes for what cannot be shown.
-/

namespace FeatureAtlas.Yaml

/-! ## Double quotes -/

/-- Whether a character is written as it is. -/
def isPrintable (character : Char) : Bool :=
  let code := character.toNat
  (0x20 ≤ code && code ≤ 0x7E) ||
    (0xA0 ≤ code && code ≤ 0xFFFD && code != 0xFEFF) || 0x10000 ≤ code

/-- Whether a character is written as it is between double quotes. -/
def isShown (character : Char) : Bool :=
  isPrintable character && !isBreak character && character != '"' && character != '\\'

/-- The upper-case hexadecimal digits of a number, filled up with zeros. -/
def hexDigits (width code : Nat) : List Char :=
  let digits := (Nat.toDigits 16 code).map Char.toUpper
  List.replicate (width - digits.length) '0' ++ digits

/-- The escape of a character by its number. -/
def escapeNumber (character : Char) : List Char :=
  let code := character.toNat
  if code ≤ 0xFF then 'x' :: hexDigits 2 code
  else if code ≤ 0xFFFF then 'u' :: hexDigits 4 code
  else 'U' :: hexDigits 8 code

/-- What follows the backslash in the escape of a character. -/
def escape : Char → List Char
  | '\x00' => ['0']
  | '\x07' => ['a']
  | '\x08' => ['b']
  | '\t' => ['t']
  | '\n' => ['n']
  | '\x0b' => ['v']
  | '\x0c' => ['f']
  | '\r' => ['r']
  | '\x1b' => ['e']
  | '"' => ['"']
  | '\\' => ['\\']
  | '\u0085' => ['N']
  | '\u2028' => ['L']
  | '\u2029' => ['P']
  | character => escapeNumber character

def doubleQuoted (text : List Char) : List Char :=
  '"' :: text.flatMap (fun character =>
    if isShown character then [character] else '\\' :: escape character) ++ ['"']

/-! ## Single quotes -/

def singleQuoted (text : List Char) : List Char :=
  '\x27' :: text.flatMap (fun character =>
    if character == '\x27' then ['\x27', '\x27'] else [character]) ++ ['\x27']

/-- Whether a text is at its end or goes on with a space. -/
def endsBefore : List Char → Bool
  | [] => true
  | character :: _ => character == ' '

/-- Whether a text begins like something else than a plain scalar. -/
def beginsSpecial : List Char → Bool
  | [] => true
  | character :: rest =>
    indicators.contains character ||
      (guardedIndicators.contains character && endsBefore rest)

/-- Whether a text holds the end of a key or the beginning of a comment. -/
def holdsSpecial : List Char → Bool
  | ':' :: rest => endsBefore rest || holdsSpecial rest
  | ' ' :: '#' :: _ => true
  | _ :: rest => holdsSpecial rest
  | [] => false

/-- Whether a text begins like the mark of a document's start or end. -/
def beginsDocument : List Char → Bool
  | '-' :: '-' :: '-' :: _ => true
  | '.' :: '.' :: '.' :: _ => true
  | _ => false

/-- Whether a text of characters that can be shown needs quotes. -/
def needsQuotes (text : List Char) : Bool :=
  Kind.ofPlain (String.ofList text) != .text || Kind.hasIdleZero (Kind.splitSign text).2 ||
    beginsSpecial text || holdsSpecial text || beginsDocument text ||
    text.head? == some ' ' || text.getLast? == some ' '

def scalarText (text : String) : String :=
  let characters := text.toList
  String.ofList <|
    if characters.any fun character => !isPrintable character || isBreak character then
      doubleQuoted characters
    else if needsQuotes characters then singleQuoted characters
    else characters

end FeatureAtlas.Yaml
