import FeatureAtlas.Json.Reader
import FeatureAtlas.Proofs.Text.Utf8

/-!
# Strings that were printed

A printed string is read back as it was.  The scanner meets the characters one
by one: those that are printed as they are pass through byte by byte, and each
escape stands for the bytes of its character.  What follows the closing quote
is left alone, so printed strings can be read one after the other.
-/

namespace FeatureAtlas.Json

/-- A reader takes characters off the front of any input, as a result. -/
def Reader.Takes
    {α : Type} (reader : Reader α) (characters : List Char) (result : α) :
    Prop :=
  ∀ rest, reader (Utf8.encode characters ++ rest) = .ok (result, rest)

theorem Reader.Takes.into
    {σ α : Type} {reader : Reader α} {characters : List Char} {result : α}
    (takes : reader.Takes characters result) (store : α → σ) :
    (reader.into store).Takes characters (store result) := by
  intro rest
  rw [Reader.into, takes rest]

/-! ## The content of a string -/

/-- A byte that stands for itself in a string. -/
def Verbatim (byte : UInt8) : Prop :=
  byte ≠ quoteByte ∧ byte ≠ backslashByte ∧ 0x20 ≤ byte.toNat

theorem prepend_append
    (first second : Bytes) (scanned : Except Problem (Bytes × Bytes)) :
    prepend (first ++ second) scanned =
      prepend first (prepend second scanned) := by
  cases scanned with
  | error problem => rfl
  | ok result => simp [prepend]

theorem scanContent_quote (rest : Bytes) :
    scanContent (quoteByte :: rest) = .ok ([], rest) := by
  rw [scanContent.eq_def]
  exact if_pos rfl

theorem scanContent_verbatim
    {byte : UInt8} (verbatim : Verbatim byte) (rest : Bytes) :
    scanContent (byte :: rest) = prepend [byte] (scanContent rest) := by
  rcases verbatim with ⟨noQuote, noEscape, visible⟩
  rw [scanContent.eq_def]
  simp only [if_neg noQuote, if_neg noEscape, if_neg (Nat.not_lt.mpr visible)]

theorem scanContent_append
    {bytes : Bytes} (verbatim : ∀ byte ∈ bytes, Verbatim byte)
    (rest : Bytes) :
    scanContent (bytes ++ rest) = prepend bytes (scanContent rest) := by
  induction bytes with
  | nil =>
      cases scanned : scanContent rest with
      | error problem => simp [prepend, scanned]
      | ok result => simp [prepend, scanned]
  | cons byte bytes induction =>
      rw [List.cons_append, scanContent_verbatim (verbatim byte (by simp)),
        induction fun other member => verbatim other (by simp [member]),
        ← prepend_append]
      rfl

theorem scanContent_short
    {mark value : UInt8} (short : shortEscape? mark = some value)
    (rest : Bytes) :
    scanContent (backslashByte :: mark :: rest) =
      prepend [value] (scanContent rest) := by
  have noQuote : backslashByte ≠ quoteByte := by decide
  rw [scanContent.eq_def]
  simp only [if_neg noQuote, if_true, short]

theorem scanContent_unicode
    {first second third fourth : UInt8} {unit : Nat}
    (digits : hexQuad? first second third fourth = some unit)
    (noTrailing : isTrailingSurrogate unit = false)
    (noLeading : isLeadingSurrogate unit = false) (rest : Bytes) :
    scanContent
        (backslashByte :: unicodeMark :: first :: second :: third ::
          fourth :: rest) =
      prepend (codePointBytes unit) (scanContent rest) := by
  have noQuote : backslashByte ≠ quoteByte := by decide
  have long : shortEscape? unicodeMark = none := by decide
  rw [scanContent.eq_def]
  simp only [if_neg noQuote, if_true, long, digits, noTrailing, noLeading,
    Bool.false_eq_true, if_false]

theorem scanContent_pair
    {first second third fourth fifth sixth seventh eighth : UInt8}
    {unit next : Nat}
    (leading : hexQuad? first second third fourth = some unit)
    (trailing : hexQuad? fifth sixth seventh eighth = some next)
    (isLeading : isLeadingSurrogate unit = true)
    (noTrailing : isTrailingSurrogate unit = false)
    (isTrailing : isTrailingSurrogate next = true) (rest : Bytes) :
    scanContent
        (backslashByte :: unicodeMark :: first :: second :: third ::
          fourth :: backslashByte :: unicodeMark :: fifth :: sixth ::
            seventh :: eighth :: rest) =
      prepend (pairBytes unit next) (scanContent rest) := by
  have noQuote : backslashByte ≠ quoteByte := by decide
  have long : shortEscape? unicodeMark = none := by decide
  rw [scanContent.eq_def]
  simp only [if_neg noQuote, if_true, long, leading, trailing, isLeading,
    noTrailing, isTrailing, Bool.false_eq_true, if_false]

/-! ## Escapes -/

/-- The number of a character is no half of a pair. -/
theorem noSurrogate (character : Char) :
    isTrailingSurrogate character.toNat = false ∧
      isLeadingSurrogate character.toNat = false := by
  have valid : character.toNat.isValidChar := character.valid
  simp only [isTrailingSurrogate, isLeadingSurrogate,
    Bool.and_eq_false_imp, decide_eq_true_eq, decide_eq_false_iff_not]
  rcases valid with small | ⟨large, -⟩ <;> omega

theorem hexValue?_hexDigit :
    ∀ value < 16,
      hexValue? (UInt8.ofNat (hexDigit value).toNat) = some value := by
  decide

theorem hexDigit_bounds :
    ∀ value < 16,
      0x20 ≤ (hexDigit value).toNat ∧ (hexDigit value).toNat < 0x80 := by
  decide

theorem verbatim_of_escape
    {character : Char} (noQuote : character ≠ '"')
    (noEscape : character ≠ '\\') (visible : 0x20 ≤ character.toNat) :
    ∀ byte ∈ String.utf8EncodeChar character, Verbatim byte := by
  intro byte member
  by_cases ascii : character.toNat < 0x80
  · rw [Utf8.utf8EncodeChar_of_ascii ascii, List.mem_singleton] at member
    have value : byte.toNat = character.toNat := by
      rw [member, Utf8.toNat_ofNat (by omega)]
    refine ⟨?_, ?_, ?_⟩
    · rintro rfl
      exact noQuote (Char.toNat_inj.mp value.symm)
    · rintro rfl
      exact noEscape (Char.toNat_inj.mp value.symm)
    · omega
  · have beyond :=
      Utf8.le_toNat_of_mem_utf8EncodeChar (Nat.not_lt.mp ascii) member
    refine ⟨?_, ?_, ?_⟩
    · rintro rfl
      exact absurd beyond (by decide)
    · rintro rfl
      exact absurd beyond (by decide)
    · omega

/-- The escape by number of a control character is resolved to its bytes. -/
theorem scanContent_control
    {character : Char} (control : character.toNat < 0x20) (rest : Bytes) :
    scanContent
        (Utf8.encode
            ['\\', 'u', '0', '0', hexDigit (character.toNat / 16),
              hexDigit (character.toNat % 16)] ++
          rest) =
      prepend (String.utf8EncodeChar character) (scanContent rest) := by
  have high : character.toNat / 16 < 16 := by omega
  have low : character.toNat % 16 < 16 := by omega
  have whole :
      ((0 * 16 + 0) * 16 + character.toNat / 16) * 16 +
          character.toNat % 16 = character.toNat := by
    omega
  have digits :
      hexQuad? 0x30 0x30
          (UInt8.ofNat (hexDigit (character.toNat / 16)).toNat)
          (UInt8.ofNat (hexDigit (character.toNat % 16)).toNat) =
        some character.toNat := by
    have zero : hexValue? 0x30 = some 0 := by decide
    simp only [hexQuad?, zero, hexValue?_hexDigit _ high,
      hexValue?_hexDigit _ low, Option.bind_eq_bind, Option.bind_some, whole]
  have bytes :
      Utf8.encode
            ['\\', 'u', '0', '0', hexDigit (character.toNat / 16),
              hexDigit (character.toNat % 16)] ++
          rest =
        backslashByte :: unicodeMark :: 0x30 :: 0x30 ::
          UInt8.ofNat (hexDigit (character.toNat / 16)).toNat ::
          UInt8.ofNat (hexDigit (character.toNat % 16)).toNat :: rest := by
    simp only [Utf8.encode_cons, Utf8.encode_nil,
      Utf8.utf8EncodeChar_of_ascii (hexDigit_bounds _ high).2,
      Utf8.utf8EncodeChar_of_ascii (hexDigit_bounds _ low).2]
    rfl
  obtain ⟨noTrailing, noLeading⟩ := noSurrogate character
  rw [bytes, scanContent_unicode digits noTrailing noLeading,
    codePointBytes, Char.ofNat_toNat]

/-- However a character is printed, the scanner finds its bytes. -/
theorem scanContent_escape (character : Char) (rest : Bytes) :
    scanContent (Utf8.encode (escape character) ++ rest) =
      prepend (String.utf8EncodeChar character) (scanContent rest) := by
  by_cases quote : character = '"'
  · subst quote
    exact scanContent_short rfl rest
  by_cases backslash : character = '\\'
  · subst backslash
    exact scanContent_short rfl rest
  by_cases backspace : character = '\x08'
  · subst backspace
    exact scanContent_short rfl rest
  by_cases formFeed : character = '\x0c'
  · subst formFeed
    exact scanContent_short rfl rest
  by_cases lineFeed : character = '\n'
  · subst lineFeed
    exact scanContent_short rfl rest
  by_cases carriageReturn : character = '\r'
  · subst carriageReturn
    exact scanContent_short rfl rest
  by_cases tab : character = '\t'
  · subst tab
    exact scanContent_short rfl rest
  rw [escape, if_neg quote, if_neg backslash, if_neg backspace,
    if_neg formFeed, if_neg lineFeed, if_neg carriageReturn, if_neg tab]
  by_cases control : character.toNat < 0x20
  · rw [if_pos control]
    exact scanContent_control control rest
  · rw [if_neg control, Utf8.encode_cons, Utf8.encode_nil,
      List.append_nil]
    exact
      scanContent_append
        (verbatim_of_escape quote backslash (Nat.not_lt.mp control)) rest

/-- The content of a printed string is the bytes of its characters. -/
theorem scanContent_written (characters : List Char) (rest : Bytes) :
    scanContent
        (Utf8.encode (characters.flatMap escape) ++ quoteByte :: rest) =
      .ok (Utf8.encode characters, rest) := by
  induction characters with
  | nil => exact scanContent_quote rest
  | cons character characters induction =>
      rw [List.flatMap_cons, Utf8.encode_append, List.append_assoc,
        scanContent_escape, induction, Utf8.encode_cons]
      rfl

/-! ## Reading a printed string -/

theorem encode_quoted (text : String) :
    Utf8.encode (quoted text) =
      quoteByte ::
        (Utf8.encode (text.toList.flatMap escape) ++ [quoteByte]) := by
  rw [quoted, List.cons_append, Utf8.encode_cons, Utf8.encode_append]
  rfl

theorem scanText_quoted (text : String) (rest : Bytes) :
    scanText
        (Utf8.encode (text.toList.flatMap escape) ++ quoteByte :: rest) =
      .ok (text, rest) := by
  rw [scanText, scanContent_written]
  simp only [bind, Except.bind, Utf8.text?_encode, String.ofList_toList]

end FeatureAtlas.Json
