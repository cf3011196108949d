import FeatureAtlas.Text.Utf8

/-!
# Decoding what was encoded

Each character has one form of one to four bytes.  Decoding takes the form of
the first character off the front and goes on behind it, so decoding gives
back every list of characters that was encoded.  The bytes of a form of
several bytes are never those of an ASCII character.
-/

namespace FeatureAtlas.Utf8

theorem toNat_ofNat {value : Nat} (small : value < 256) :
    (UInt8.ofNat value).toNat = value := by
  rw [UInt8.toNat_ofNat']
  exact Nat.mod_eq_of_lt small

/-! ## The forms of one character -/

theorem utf8EncodeChar_of_ascii
    {character : Char} (ascii : character.toNat < 0x80) :
    String.utf8EncodeChar character = [UInt8.ofNat character.toNat] := by
  have small : character.val.toNat ≤ 0x7F := Nat.le_of_lt_succ ascii
  rw [String.utf8EncodeChar]
  exact if_pos small

theorem le_toNat_of_mem_utf8EncodeChar
    {character : Char} (beyond : 0x80 ≤ character.toNat)
    {byte : UInt8} (member : byte ∈ String.utf8EncodeChar character) :
    0x80 ≤ byte.toNat := by
  have large : ¬character.val.toNat ≤ 0x7F := Nat.not_le.mpr beyond
  have high :
      ∀ {value : Nat}, 0x80 ≤ value → value < 0x100 →
        byte = UInt8.ofNat value → 0x80 ≤ byte.toNat := by
    intro value least most same
    rw [same, toNat_ofNat most]
    exact least
  rw [String.utf8EncodeChar] at member
  simp only [if_neg large] at member
  split at member
  · simp only [List.mem_cons, List.not_mem_nil, or_false] at member
    rcases member with first | second
    · exact high (by omega) (by omega) first
    · exact high (by omega) (by omega) second
  · split at member
    · simp only [List.mem_cons, List.not_mem_nil, or_false] at member
      rcases member with first | second | third
      · exact high (by omega) (by omega) first
      · exact high (by omega) (by omega) second
      · exact high (by omega) (by omega) third
    · simp only [List.mem_cons, List.not_mem_nil, or_false] at member
      rcases member with first | second | third | fourth
      · exact high (by omega) (by omega) first
      · exact high (by omega) (by omega) second
      · exact high (by omega) (by omega) third
      · exact high (by omega) (by omega) fourth

/-- A byte of ASCII stands for an ASCII character and is no part of another form. -/
theorem exists_of_mem_encode
    {characters : List Char} {byte : UInt8}
    (member : byte ∈ encode characters) (ascii : byte.toNat < 0x80) :
    ∃ character ∈ characters, character.toNat = byte.toNat := by
  rcases List.mem_flatMap.mp member with ⟨character, characterIn, formed⟩
  refine ⟨character, characterIn, ?_⟩
  by_cases small : character.toNat < 0x80
  · rw [utf8EncodeChar_of_ascii small, List.mem_singleton] at formed
    rw [formed, toNat_ofNat (by omega)]
  · have beyond :=
      le_toNat_of_mem_utf8EncodeChar (Nat.not_lt.mp small) formed
    omega

/-! ## Decoding one character -/

theorem continuation?_ofNat {low : Nat} (small : low < 0x40) :
    continuation? (UInt8.ofNat (low + 0x80)) = some low := by
  rw [continuation?, toNat_ofNat (by omega), if_pos (by omega),
    Nat.add_sub_cancel]

theorem pair?_ofNat
    {code : Nat} (least : 0x80 ≤ code) (most : code ≤ 0x7FF) :
    pair? (UInt8.ofNat (code / 64 % 0x20 + 0xC0))
        (UInt8.ofNat (code % 0x40 + 0x80)) =
      some (Char.ofNat code) := by
  have whole : (code / 64 % 0x20 + 0xC0 - 0xC0) * 0x40 + code % 0x40 = code := by
    omega
  simp only [pair?, continuation?_ofNat (Nat.mod_lt code (by decide)),
    Option.bind_eq_bind, Option.bind_some]
  rw [toNat_ofNat (by omega), whole, if_pos least]

theorem triple?_ofNat
    {code : Nat} (least : 0x800 ≤ code) (most : code ≤ 0xFFFF)
    (valid : code.isValidChar) :
    triple? (UInt8.ofNat (code / 4096 % 0x10 + 0xE0))
        (UInt8.ofNat (code / 64 % 0x40 + 0x80))
        (UInt8.ofNat (code % 0x40 + 0x80)) =
      some (Char.ofNat code) := by
  have whole :
      (code / 4096 % 0x10 + 0xE0 - 0xE0) * 0x1000 +
          code / 64 % 0x40 * 0x40 + code % 0x40 = code := by
    omega
  simp only [triple?, continuation?_ofNat (Nat.mod_lt _ (by decide)),
    Option.bind_eq_bind, Option.bind_some]
  rw [toNat_ofNat (by omega), whole, if_pos ⟨least, valid⟩]

theorem quadruple?_of_continuations
    {first second third fourth : UInt8} {high middle low code : Nat}
    (highPart : continuation? second = some high)
    (middlePart : continuation? third = some middle)
    (lowPart : continuation? fourth = some low)
    (whole :
      (first.toNat - 0xF0) * 0x40000 + high * 0x1000 + middle * 0x40 + low =
        code)
    (least : 0x10000 ≤ code) (valid : code.isValidChar) :
    quadruple? first second third fourth = some (Char.ofNat code) := by
  subst whole
  rw [quadruple?, highPart, Option.bind_eq_bind, Option.bind_some,
    middlePart, Option.bind_some, lowPart, Option.bind_some]
  exact if_pos ⟨least, valid⟩

theorem quadruple?_ofNat
    {code : Nat} (least : 0x10000 ≤ code) (valid : code.isValidChar) :
    quadruple? (UInt8.ofNat (code / 262144 % 0x08 + 0xF0))
        (UInt8.ofNat (code / 4096 % 0x40 + 0x80))
        (UInt8.ofNat (code / 64 % 0x40 + 0x80))
        (UInt8.ofNat (code % 0x40 + 0x80)) =
      some (Char.ofNat code) := by
  have most : code < 0x110000 := by
    rcases valid with small | ⟨-, bounded⟩
    · exact Nat.lt_trans small (by decide)
    · exact bounded
  refine
    quadruple?_of_continuations
      (continuation?_ofNat (Nat.mod_lt _ (by decide)))
      (continuation?_ofNat (Nat.mod_lt _ (by decide)))
      (continuation?_ofNat (Nat.mod_lt _ (by decide))) ?_ least valid
  rw [toNat_ofNat (by omega)]
  omega

theorem decode?_cons_of_ascii
    {first : UInt8} (ascii : first.toNat < 0x80) (rest : Bytes) :
    decode? (first :: rest) =
      (decode? rest).map (Char.ofNat first.toNat :: ·) := by
  rw [decode?.eq_def]
  exact if_pos ascii

/-- The form of a character in front is taken off as a whole. -/
theorem decode?_utf8EncodeChar_append (character : Char) (rest : Bytes) :
    decode? (String.utf8EncodeChar character ++ rest) =
      (decode? rest).map (character :: ·) := by
  have valid : character.val.toNat.isValidChar := character.valid
  have again : Char.ofNat character.val.toNat = character :=
    Char.ofNat_toNat character
  generalize code_eq : character.val.toNat = code at valid again
  rw [String.utf8EncodeChar, code_eq]
  by_cases one : code ≤ 0x7F
  · have small : (UInt8.ofNat code).toNat = code := toNat_ofNat (by omega)
    rw [if_pos one, List.cons_append, List.nil_append,
      decode?_cons_of_ascii (by omega), small, again]
  · rw [if_neg one]
    by_cases two : code ≤ 0x7FF
    · rw [if_pos two, List.cons_append, List.cons_append, List.nil_append,
        decode?, toNat_ofNat (by omega), if_neg (by omega),
        if_neg (by omega), if_pos (by omega)]
      simp only [pair?_ofNat (by omega) two, again, Option.bind_eq_bind,
        Option.bind_some]
    · rw [if_neg two]
      by_cases three : code ≤ 0xFFFF
      · rw [if_pos three, List.cons_append, List.cons_append,
          List.cons_append, List.nil_append, decode?,
          toNat_ofNat (by omega), if_neg (by omega), if_neg (by omega),
          if_neg (by omega), if_pos (by omega)]
        simp only [triple?_ofNat (by omega) three valid, again,
          Option.bind_eq_bind, Option.bind_some]
      · rw [if_neg three, List.cons_append, List.cons_append,
          List.cons_append, List.cons_append, List.nil_append, decode?,
          toNat_ofNat (by omega), if_neg (by omega), if_neg (by omega),
          if_neg (by omega), if_neg (by omega), if_pos (by omega)]
        simp only [quadruple?_ofNat (by omega) valid, again,
          Option.bind_eq_bind, Option.bind_some]

/-- Decoding gives back what was encoded. -/
@[simp]
theorem decode?_encode (characters : List Char) :
    decode? (encode characters) = some characters := by
  induction characters with
  | nil => rfl
  | cons character rest induction =>
      rw [encode_cons, decode?_utf8EncodeChar_append, induction,
        Option.map_some]

@[simp]
theorem text?_encode (characters : List Char) :
    text? (encode characters) = some (String.ofList characters) := by
  rw [text?, decode?_encode, Option.map_some]

end FeatureAtlas.Utf8
