/-!
# Blank text

A text is blank when it holds nothing but Unicode white space. Blank names are
refused everywhere in this library, and blank lines carry no record.
-/

namespace FeatureAtlas.Text

/-- The ranges of code points with the Unicode property `White_Space`. -/
def whiteSpaceRanges : List (Nat × Nat) :=
  [(0x9, 0xD), (0x20, 0x20), (0x85, 0x85), (0xA0, 0xA0), (0x1680, 0x1680),
    (0x2000, 0x200A), (0x2028, 0x2029), (0x202F, 0x202F), (0x205F, 0x205F),
    (0x3000, 0x3000)]

/-- Whether a character has the property `White_Space`. -/
def isWhiteSpace (character : Char) : Bool :=
  whiteSpaceRanges.any fun (low, high) =>
    low ≤ character.toNat && character.toNat ≤ high

def allWhiteSpace (characters : List Char) : Bool :=
  characters.all isWhiteSpace

/-- Whether a text is blank; the empty text is. -/
def isBlank (text : String) : Bool :=
  allWhiteSpace text.toList

end FeatureAtlas.Text
