import FeatureAtlas.Json.Printer
import FeatureAtlas.Text.Quotation

/-!
# Problems with JSON documents

Every cause for which a document or a value in it is refused, and its wording.
-/

namespace FeatureAtlas.Json

/-- What stands where something else was expected. -/
inductive Found
  | null
  | boolean (value : Bool)
  | number (value : Number)
  | text (value : String)
  | array
  | object
deriving DecidableEq, Repr

/-- Why a document is refused. -/
inductive Problem
  | endInValue
  | endInText
  | endInArray
  | endInObject
  | expectedValue
  | expectedLiteral
  | expectedColon
  | expectedArrayEnd
  | expectedObjectEnd
  | keyNotText
  | trailingComma
  | trailingCharacters
  | invalidNumber
  | numberTooLarge
  | invalidEscape
  | brokenPair
  | loneSurrogate
  | invalidCodePoint
  | controlCharacter
  | tooDeep
  | wrongType (found : Found) (expected : String)
  | wrongInteger (found : Int) (expected : String)
  | wrongLength (length : Nat) (expected : String)
  | missingField (name : String)
  | duplicateField (name : String)
  | unknownVariant (name : String) (variants : List String)
  /-- The value has no form; only writing fails so. -/
  | unserializable
deriving DecidableEq, Repr

/-- What is found, in words. -/
def Found.description : Found → String
  | .null => "null"
  | .boolean value => "boolean `" ++ String.ofList (booleanText value) ++ "`"
  | .number (.integer value) => "integer `" ++ String.ofList (integerText value) ++ "`"
  | .number (.float value) => "floating point `" ++ Decimal.text value ++ "`"
  | .text value => "string " ++ Text.quotation value
  | .array => "sequence"
  | .object => "map"

def Value.found : Value → Found
  | .null => .null
  | .boolean value => .boolean value
  | .number value => .number value
  | .text value => .text value
  | .array _ => .array
  | .object _ => .object

/-- The names to choose from, in words. -/
def alternatives : List String → String
  | [first, second] => "`" ++ first ++ "` or `" ++ second ++ "`"
  | names => "one of " ++ ", ".intercalate (names.map fun name => "`" ++ name ++ "`")

/--
A problem in words. What the text of a reading problem ends in, the place as
` at line 1 column 1`, is left out.
-/
def Problem.message : Problem → String
  | .endInValue => "EOF while parsing a value"
  | .endInText => "EOF while parsing a string"
  | .endInArray => "EOF while parsing a list"
  | .endInObject => "EOF while parsing an object"
  | .expectedValue => "expected value"
  | .expectedLiteral => "expected ident"
  | .expectedColon => "expected `:`"
  | .expectedArrayEnd => "expected `,` or `]`"
  | .expectedObjectEnd => "expected `,` or `\x7d`"
  | .keyNotText => "key must be a string"
  | .trailingComma => "trailing comma"
  | .trailingCharacters => "trailing characters"
  | .invalidNumber => "invalid number"
  | .numberTooLarge => "number out of range"
  | .invalidEscape => "invalid escape"
  | .brokenPair => "unexpected end of hex escape"
  | .loneSurrogate => "lone leading surrogate in hex escape"
  | .invalidCodePoint => "invalid unicode code point"
  | .controlCharacter =>
    "control character (\\u0000-\\u001F) found while parsing a string"
  | .tooDeep => "recursion limit exceeded"
  | .wrongType found expected =>
    "invalid type: " ++ found.description ++ ", expected " ++ expected
  | .wrongInteger found expected =>
    "invalid value: " ++ (Found.number (.integer found)).description ++
      ", expected " ++ expected
  | .wrongLength length expected =>
    "invalid length " ++ String.ofList (Decimal.digitsOf length) ++
      ", expected " ++ expected
  | .missingField name => "missing field `" ++ name ++ "`"
  | .duplicateField name => "duplicate field `" ++ name ++ "`"
  | .unknownVariant name variants =>
    "unknown variant `" ++ name ++ "`, expected " ++ alternatives variants
  | .unserializable => "unserializable"

end FeatureAtlas.Json
