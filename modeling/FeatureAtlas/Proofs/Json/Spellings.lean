import FeatureAtlas.Proofs.Json.Containers
import Mathlib.Data.List.Forall2

/-!
# Values in any spelling

The same value can be written in many ways: with white space wherever the
grammar has room for it, and with escapes in place of characters.  Here the
spellings of texts, lists and objects are told by themselves, and the readers
are shown to understand each of them.
-/

namespace FeatureAtlas.Json

/-! ## Spellings -/

/-- White space. -/
def Blank (data : Bytes) : Prop :=
  ∀ byte ∈ data, isSpaceByte byte = true

instance (data : Bytes) : Decidable (Blank data) :=
  List.decidableBAll (isSpaceByte · = true) data

/-- The letters of escapes with the characters that they stand for. -/
def letterEscapes : List (Char × Char) :=
  [('"', '"'), ('\\', '\\'), ('/', '/'), ('b', '\x08'), ('f', '\x0c'),
    ('n', '\n'), ('r', '\r'), ('t', '\t')]

/--
The spellings of a character between quotes: as it is, by a letter, or by its
number in units of 16 bits with four digits each.
-/
inductive SpellsChar (character : Char) : Bytes → Prop where
  | verbatim (noQuote : character ≠ '"') (noEscape : character ≠ '\\')
      (visible : 0x20 ≤ character.toNat) :
      SpellsChar character (String.utf8EncodeChar character)
  | letter (letter : Char) (listed : (letter, character) ∈ letterEscapes) :
      SpellsChar character [backslashByte, UInt8.ofNat letter.toNat]
  | unit (first second third fourth : UInt8)
      (digits : hexQuad? first second third fourth = some character.toNat) :
      SpellsChar character
        [backslashByte, unicodeMark, first, second, third, fourth]
  | pair (high low : Nat)
      (first second third fourth fifth sixth seventh eighth : UInt8)
      (leading : hexQuad? first second third fourth = some (0xD800 + high))
      (trailing : hexQuad? fifth sixth seventh eighth = some (0xDC00 + low))
      (highest : high < 0x400) (lowest : low < 0x400)
      (whole : character.toNat = 0x10000 + high * 0x400 + low) :
      SpellsChar character
        [backslashByte, unicodeMark, first, second, third, fourth,
          backslashByte, unicodeMark, fifth, sixth, seventh, eighth]

/-- Characters that need no escapes between quotes. -/
def Unescaped (characters : List Char) : Prop :=
  ∀ character ∈ characters,
    character ≠ '"' ∧ character ≠ '\\' ∧ 0x20 ≤ character.toNat

instance (characters : List Char) : Decidable (Unescaped characters) :=
  List.decidableBAll
    (fun character : Char =>
      character ≠ '"' ∧ character ≠ '\\' ∧ 0x20 ≤ character.toNat)
    characters

/-- The spellings of a text: those of its characters between quotes. -/
def SpellsText (text : String) (data : Bytes) : Prop :=
  ∃ parts,
    List.Forall₂ SpellsChar text.toList parts ∧
      data = quoteByte :: (parts.flatten ++ [quoteByte])

theorem forall₂_verbatim
    {characters : List Char} (unescaped : Unescaped characters) :
    List.Forall₂ SpellsChar characters
      (characters.map String.utf8EncodeChar) := by
  refine List.forall₂_map_right_iff.mpr (List.forall₂_same.mpr ?_)
  intro character listed
  obtain ⟨noQuote, noEscape, visible⟩ := unescaped character listed
  exact .verbatim noQuote noEscape visible

/-- A text that needs no escapes may stand as it is. -/
theorem spellsText_verbatim
    (text : String) (unescaped : Unescaped text.toList) :
    SpellsText text
      (quoteByte ::
        ((text.toList.map String.utf8EncodeChar).flatten ++ [quoteByte])) :=
  ⟨_, forall₂_verbatim unescaped, rfl⟩

section Separated

variable {α : Type} (spells : α → Bytes → Prop)

/-- Items each behind a comma, and white space around the commas and at the end. -/
inductive SpellsMore : List α → Bytes → Prop where
  | nil {blank : Bytes} (isBlank : Blank blank) : SpellsMore [] blank
  | cons {item : α} {items : List α} {before between data rest : Bytes}
      (isBlank : Blank before) (isBlankBetween : Blank between)
      (spelled : spells item data) (more : SpellsMore items rest) :
      SpellsMore (item :: items)
        (before ++ commaByte :: (between ++ (data ++ rest)))

/-- Items with commas between them, and white space around the items. -/
inductive SpellsItems : List α → Bytes → Prop where
  | nil {blank : Bytes} (isBlank : Blank blank) : SpellsItems [] blank
  | cons {item : α} {items : List α} {before data rest : Bytes}
      (isBlank : Blank before) (spelled : spells item data)
      (more : SpellsMore spells items rest) :
      SpellsItems (item :: items) (before ++ (data ++ rest))

end Separated

/-- A key and a value with a colon between them, and white space around the colon. -/
inductive SpellsMember (spells : Value → Bytes → Prop) :
    String × Value → Bytes → Prop where
  | mk {key : String} {value : Value} {name before after form : Bytes}
      (named : SpellsText key name) (isBlank : Blank before)
      (isBlankAfter : Blank after) (spelled : spells value form) :
      SpellsMember spells (key, value)
        (name ++ (before ++ colonByte :: (after ++ form)))

/-- The spellings of texts, lists and objects. -/
inductive Spells : Value → Bytes → Prop where
  | text {text : String} {data : Bytes} (spelled : SpellsText text data) :
      Spells (.text text) data
  | array {items : List Value} {data : Bytes}
      (spelled : SpellsItems Spells items data) :
      Spells (.array items) (openBracket :: (data ++ [closeBracket]))
  | object {members : List (String × Value)} {data : Bytes}
      (spelled : SpellsItems (SpellsMember Spells) members data) :
      Spells (.object members) (openBrace :: (data ++ [closeBrace]))

/-- A document that holds a value, with white space around it. -/
def SpellsDocument (value : Value) (data : Bytes) : Prop :=
  ∃ before form after,
    Blank before ∧ Spells value form ∧ Blank after ∧
      data = before ++ (form ++ after)

/-- A reader takes bytes off the front of any input, as a result. -/
def Reader.Consumes
    {α : Type} (reader : Reader α) (data : Bytes) (result : α) : Prop :=
  ∀ rest, reader (data ++ rest) = .ok (result, rest)

/-- A reader takes a value as a result, however the value is spelled. -/
def Reader.Understands
    {α : Type} (reader : Reader α) (value : Value) (result : α) : Prop :=
  ∀ before form,
    Blank before → Spells value form →
      reader.Consumes (before ++ form) result

theorem Reader.Understands.into
    {σ α : Type} {reader : Reader α} {value : Value} {result : α}
    (understands : reader.Understands value result) (store : α → σ) :
    (reader.into store).Understands value (store result) := by
  intro before form blank spelled rest
  rw [Reader.into, understands before form blank spelled rest]

theorem skipSpace_blank
    {blank : Bytes} (isBlank : Blank blank) (rest : Bytes) :
    skipSpace (blank ++ rest) = skipSpace rest :=
  List.dropWhile_append_of_pos isBlank

/-! ## Characters -/

theorem shortEscape?_of_mem
    {letter character : Char} (listed : (letter, character) ∈ letterEscapes) :
    ∃ value,
      shortEscape? (UInt8.ofNat letter.toNat) = some value ∧
        String.utf8EncodeChar character = [value] := by
  simp only [letterEscapes, List.mem_cons, Prod.mk.injEq,
    List.not_mem_nil, or_false] at listed
  rcases listed with ⟨rfl, rfl⟩ | ⟨rfl, rfl⟩ | ⟨rfl, rfl⟩ | ⟨rfl, rfl⟩ |
    ⟨rfl, rfl⟩ | ⟨rfl, rfl⟩ | ⟨rfl, rfl⟩ | ⟨rfl, rfl⟩ <;>
    exact ⟨_, rfl, rfl⟩

/-- However a character is spelled, the scanner finds its bytes. -/
theorem SpellsChar.scanContent
    {character : Char} {data : Bytes} (spelled : SpellsChar character data)
    (rest : Bytes) :
    Json.scanContent (data ++ rest) =
      prepend (String.utf8EncodeChar character) (Json.scanContent rest) := by
  cases spelled with
  | verbatim noQuote noEscape visible =>
      exact
        scanContent_append (verbatim_of_escape noQuote noEscape visible) rest
  | letter letter listed =>
      obtain ⟨value, short, bytes⟩ := shortEscape?_of_mem listed
      rw [bytes]
      exact scanContent_short short rest
  | unit first second third fourth digits =>
      obtain ⟨noTrailing, noLeading⟩ := noSurrogate character
      have bytes : codePointBytes character.toNat = String.utf8EncodeChar character := by
        rw [codePointBytes, Char.ofNat_toNat]
      rw [← bytes]
      exact scanContent_unicode digits noTrailing noLeading rest
  | pair high low first second third fourth fifth sixth seventh eighth
      leading trailing highest lowest whole =>
      have bytes :
          pairBytes (0xD800 + high) (0xDC00 + low) =
            String.utf8EncodeChar character := by
        rw [pairBytes, codePointBytes, Nat.add_sub_cancel_left,
          Nat.add_sub_cancel_left, ← whole, Char.ofNat_toNat]
      rw [← bytes]
      refine scanContent_pair leading trailing ?_ ?_ ?_ rest <;>
        simp [isLeadingSurrogate, isTrailingSurrogate] <;> omega

theorem passText_append
    {bytes : Bytes} (verbatim : ∀ byte ∈ bytes, Verbatim byte)
    (rest : Bytes) : passText (bytes ++ rest) = passText rest := by
  induction bytes with
  | nil => rfl
  | cons byte bytes induction =>
      obtain ⟨⟨noQuote, noEscape, visible⟩, others⟩ :=
        List.forall_mem_cons.mp verbatim
      rw [List.cons_append, passText.eq_def]
      simp only [if_neg noQuote, if_neg noEscape,
        if_neg (Nat.not_lt.mpr visible), induction others]

theorem passText_short
    {mark value : UInt8} (short : shortEscape? mark = some value)
    (rest : Bytes) :
    passText (backslashByte :: mark :: rest) = passText rest := by
  have noQuote : backslashByte ≠ quoteByte := by decide
  rw [passText.eq_def]
  simp only [if_neg noQuote, if_true, short]

theorem passText_unicode
    {first second third fourth : UInt8} {unit : Nat}
    (digits : hexQuad? first second third fourth = some unit)
    (rest : Bytes) :
    passText
        (backslashByte :: unicodeMark :: first :: second :: third ::
          fourth :: rest) =
      passText rest := by
  have noQuote : backslashByte ≠ quoteByte := by decide
  have long : shortEscape? unicodeMark = none := by decide
  rw [passText.eq_def]
  simp only [if_neg noQuote, if_true, long, digits]

theorem SpellsChar.passText
    {character : Char} {data : Bytes} (spelled : SpellsChar character data)
    (rest : Bytes) : Json.passText (data ++ rest) = Json.passText rest := by
  cases spelled with
  | verbatim noQuote noEscape visible =>
      exact passText_append (verbatim_of_escape noQuote noEscape visible) rest
  | letter letter listed =>
      obtain ⟨value, short, -⟩ := shortEscape?_of_mem listed
      exact passText_short short rest
  | unit first second third fourth digits =>
      exact passText_unicode digits rest
  | pair high low first second third fourth fifth sixth seventh eighth
      leading trailing highest lowest whole =>
      exact
        (passText_unicode leading _).trans (passText_unicode trailing rest)

/-! ## Texts -/

/-- Spelled characters are scanned and passed over up to the quote behind them. -/
theorem content_of_forall₂
    {characters : List Char} {parts : List Bytes}
    (each : List.Forall₂ SpellsChar characters parts) (rest : Bytes) :
    scanContent (parts.flatten ++ quoteByte :: rest) =
        .ok (Utf8.encode characters, rest) ∧
      passText (parts.flatten ++ quoteByte :: rest) = .ok rest := by
  induction each with
  | nil =>
      rw [List.flatten_nil, List.nil_append, passText.eq_def]
      exact ⟨scanContent_quote rest, if_pos rfl⟩
  | cons here _ induction =>
      obtain ⟨scanned, passed⟩ := induction
      rw [List.flatten_cons, List.append_assoc, here.scanContent,
        here.passText, scanned, passed, Utf8.encode_cons]
      exact ⟨rfl, rfl⟩

/-- A spelled text begins with a quote, and what follows is scanned and passed over. -/
theorem SpellsText.exists_content
    {text : String} {data : Bytes} (spelled : SpellsText text data) :
    ∃ content,
      data = quoteByte :: content ∧
        ∀ rest,
          scanText (content ++ rest) = .ok (text, rest) ∧
            Json.passText (content ++ rest) = .ok rest := by
  obtain ⟨parts, each, whole⟩ := spelled
  refine ⟨_, whole, fun rest => ?_⟩
  obtain ⟨scanned, passed⟩ := content_of_forall₂ each rest
  rw [List.append_assoc, List.singleton_append, scanText, scanned]
  refine ⟨?_, passed⟩
  simp only [bind, Except.bind, Utf8.text?_encode, String.ofList_toList]

theorem skipSpace_quote (rest : Bytes) :
    skipSpace (quoteByte :: rest) = quoteByte :: rest :=
  skipSpace_cons (by decide) rest

section Text

variable (text : String)

/-- A text is read where a text is expected. -/
theorem readText_understands : readText.Understands (.text text) text := by
  rintro before _ isBlank ⟨spelled⟩ rest
  obtain ⟨content, rfl, both⟩ := spelled.exists_content
  rw [readText, readTextAs, List.append_assoc, skipSpace_blank isBlank,
    List.cons_append, skipSpace_quote]
  exact (if_pos rfl).trans (both rest).1

/-- A text is read where any value is expected. -/
theorem readValue_understands_text (room : Nat) :
    (readValue room).Understands (.text text) (.text text) := by
  have noBracket : quoteByte ≠ openBracket := by decide
  have noBrace : quoteByte ≠ openBrace := by decide
  have noNull : quoteByte ≠ 0x6E := by decide
  have noTrue : quoteByte ≠ 0x74 := by decide
  have noFalse : quoteByte ≠ 0x66 := by decide
  have noMinus : quoteByte ≠ minusByte := by decide
  have noDigit : isDigitByte quoteByte = false := by decide
  rintro before _ isBlank ⟨spelled⟩ rest
  obtain ⟨content, rfl, both⟩ := spelled.exists_content
  rw [readValue.eq_def, List.append_assoc, skipSpace_blank isBlank,
    List.cons_append, skipSpace_quote]
  simp only [if_neg noBracket, if_neg noBrace, if_neg noNull,
    if_neg noTrue, if_neg noFalse, if_neg noMinus, noDigit,
    Bool.false_eq_true, if_false, if_true, (both rest).1, bind, Except.bind]

/-- A text is passed over. -/
theorem passing_understands {σ : Type} (state : σ) :
    (passing state).Understands (.text text) state := by
  have noBracket : quoteByte ≠ openBracket := by decide
  have noBrace : quoteByte ≠ openBrace := by decide
  have scalar (rest : Bytes) :
      passScalar quoteByte rest = Json.passText rest := rfl
  rintro before _ isBlank ⟨spelled⟩ rest
  obtain ⟨content, rfl, both⟩ := spelled.exists_content
  rw [passing, passValue, passValueWithin, List.append_assoc,
    skipSpace_blank isBlank, List.cons_append, skipSpace_quote]
  simp only [if_neg noBracket, if_neg noBrace, scalar, (both rest).2, bind,
    Except.bind]

end Text

end FeatureAtlas.Json
