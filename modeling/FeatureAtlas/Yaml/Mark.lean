/-!
# Marked characters

The text of a document is read as characters that know their line and column,
because in this format the column of a character decides what it belongs to.
Every line break of one character or two is one break here.
-/

namespace FeatureAtlas.Yaml

/-- A character with its line and column, both counted from zero. -/
structure Mark where
  character : Char
  line : Nat
  column : Nat
deriving DecidableEq, Repr

/-- Whether a character may stand in a document. -/
def isAllowed (character : Char) : Bool :=
  let code := character.toNat
  code = 0x09 || code = 0x0A || code = 0x0D || (0x20 ≤ code && code ≤ 0x7E) ||
    code = 0x85 || (0xA0 ≤ code && code ≤ 0xFFFD && code != 0xFEFF) || 0x10000 ≤ code

/-- Whether a character ends a line. -/
def isBreak (character : Char) : Bool :=
  character == '\n' || character == '\u2028' || character == '\u2029'

def isBlank (character : Char) : Bool :=
  character == ' ' || character == '\t'

/-- A text with a line feed for every carriage return, pair of both, and next line. -/
def normalizeBreaks : List Char → List Char
  | '\r' :: '\n' :: rest => '\n' :: normalizeBreaks rest
  | '\r' :: rest => '\n' :: normalizeBreaks rest
  | '\u0085' :: rest => '\n' :: normalizeBreaks rest
  | character :: rest => character :: normalizeBreaks rest
  | [] => []

/-- Characters marked from a line and column on. -/
def markFrom (line column : Nat) : List Char → List Mark
  | [] => []
  | character :: rest =>
    ⟨character, line, column⟩ ::
      if isBreak character then markFrom (line + 1) 0 rest
      else markFrom line (column + 1) rest

/-- The marked characters of a document, if all of them are allowed. -/
def marks? (text : String) : Option (List Mark) :=
  if text.toList.all isAllowed then some (markFrom 0 0 (normalizeBreaks text.toList))
  else none

/-- Whether the input begins with a blank or a break, or is at its end. -/
def endsWord : List Mark → Bool
  | [] => true
  | mark :: _ => isBlank mark.character || isBreak mark.character

/-- Whether the input begins with a word of one character. -/
def isLoneCharacter (character : Char) : List Mark → Bool
  | [] => false
  | mark :: rest => mark.character == character && endsWord rest

/-- Whether the input begins at the start of a line with a word of three equal characters. -/
def isTriple (character : Char) : List Mark → Bool
  | first :: second :: third :: rest =>
    first.column == 0 && first.character == character && second.character == character &&
      third.character == character && endsWord rest
  | _ => false

/-- Whether the input begins with the mark of a document's start or end. -/
def isDocumentMark (input : List Mark) : Bool :=
  isTriple '-' input || isTriple '.' input

end FeatureAtlas.Yaml
