import FeatureAtlas.Json.Value

/-!
# Printing JSON

The compact form has no spaces. The indented form puts every item on a line of
its own, two spaces deeper than what holds it. Strings escape quotes,
backslashes and control characters only, so a printed value has no raw line
break inside a string.
-/

namespace FeatureAtlas.Json

/-- A hexadecimal digit in lower case. -/
def hexDigit (value : Nat) : Char :=
  if value < 10 then Char.ofNat (0x30 + value) else Char.ofNat (0x57 + value)

/-- A character as it stands between quotes. -/
def escape (character : Char) : List Char :=
  if character = '"' then ['\\', '"']
  else if character = '\\' then ['\\', '\\']
  else if character = '\x08' then ['\\', 'b']
  else if character = '\x0c' then ['\\', 'f']
  else if character = '\n' then ['\\', 'n']
  else if character = '\r' then ['\\', 'r']
  else if character = '\t' then ['\\', 't']
  else if character.toNat < 0x20 then
    ['\\', 'u', '0', '0', hexDigit (character.toNat / 16), hexDigit (character.toNat % 16)]
  else [character]

/-- A text between quotes. -/
def quoted (text : String) : List Char :=
  '"' :: text.toList.flatMap escape ++ ['"']

def integerText (value : Int) : List Char :=
  if value < 0 then '-' :: Decimal.digitsOf value.natAbs
  else Decimal.digitsOf value.natAbs

def Number.written : Number → List Char
  | .integer value => integerText value
  | .float value => (Decimal.text value).toList

def booleanText (value : Bool) : List Char :=
  if value then ['t', 'r', 'u', 'e'] else ['f', 'a', 'l', 's', 'e']

def nullText : List Char := ['n', 'u', 'l', 'l']

namespace Value

mutual

/-- The compact form as characters. -/
def written : Value → List Char
  | .null => nullText
  | .boolean value => booleanText value
  | .number value => value.written
  | .text value => quoted value
  | .array items => '[' :: writtenItems items ++ [']']
  | .object members => '\x7b' :: writtenMembers members ++ ['\x7d']

/-- Items separated by commas. -/
def writtenItems : List Value → List Char
  | [] => []
  | item :: rest => item.written ++ writtenMoreItems rest

/-- Items each behind a comma. -/
def writtenMoreItems : List Value → List Char
  | [] => []
  | item :: rest => ',' :: item.written ++ writtenMoreItems rest

def writtenMembers : List (String × Value) → List Char
  | [] => []
  | (key, value) :: rest => quoted key ++ ':' :: value.written ++ writtenMoreMembers rest

def writtenMoreMembers : List (String × Value) → List Char
  | [] => []
  | (key, value) :: rest =>
    ',' :: quoted key ++ ':' :: value.written ++ writtenMoreMembers rest

end

def compact (value : Value) : String :=
  String.ofList value.written

/-- A line break and the indentation of a depth. -/
def lineBreak (depth : Nat) : List Char :=
  '\n' :: List.replicate (2 * depth) ' '

mutual

/-- The indented form of a value at a depth, as characters. -/
def indentedAt (depth : Nat) : Value → List Char
  | .null => nullText
  | .boolean value => booleanText value
  | .number value => value.written
  | .text value => quoted value
  | .array [] => ['[', ']']
  | .array (item :: rest) =>
    '[' :: lineBreak (depth + 1) ++ indentedAt (depth + 1) item ++
      indentedMoreItems depth rest ++ lineBreak depth ++ [']']
  | .object [] => ['\x7b', '\x7d']
  | .object ((key, value) :: rest) =>
    '\x7b' :: lineBreak (depth + 1) ++ quoted key ++ [':', ' '] ++
      indentedAt (depth + 1) value ++
      indentedMoreMembers depth rest ++ lineBreak depth ++ ['\x7d']

/-- Items each behind a comma and a line break. -/
def indentedMoreItems (depth : Nat) : List Value → List Char
  | [] => []
  | item :: rest =>
    ',' :: lineBreak (depth + 1) ++ indentedAt (depth + 1) item ++
      indentedMoreItems depth rest

/-- Members each behind a comma and a line break. -/
def indentedMoreMembers (depth : Nat) : List (String × Value) → List Char
  | [] => []
  | (key, value) :: rest =>
    ',' :: lineBreak (depth + 1) ++ quoted key ++ [':', ' '] ++
      indentedAt (depth + 1) value ++ indentedMoreMembers depth rest

end

def indented (value : Value) : String :=
  String.ofList (value.indentedAt 0)

end Value

end FeatureAtlas.Json
