/-!
# UTF-8

Characters as bytes and back. Decoding is strict: it refuses stray and missing
continuation bytes, forms longer than needed, surrogates and values beyond the
last code point, so each character has exactly one form.
-/

namespace FeatureAtlas

/-- File contents and lines. -/
abbrev Bytes := List UInt8

namespace Utf8

/-- The bytes of a list of characters. -/
def encode (characters : List Char) : Bytes :=
  characters.flatMap String.utf8EncodeChar

def ofText (text : String) : Bytes :=
  encode text.toList

/-- The six bits of a continuation byte. -/
def continuation? (byte : UInt8) : Option Nat :=
  if 0x80 ≤ byte.toNat ∧ byte.toNat < 0xC0 then some (byte.toNat - 0x80) else none

/-- The character of a two-byte form. -/
def pair? (first second : UInt8) : Option Char := do
  let low ← continuation? second
  let code := (first.toNat - 0xC0) * 0x40 + low
  if 0x80 ≤ code then some (Char.ofNat code) else none

/-- The character of a three-byte form. -/
def triple? (first second third : UInt8) : Option Char := do
  let middle ← continuation? second
  let low ← continuation? third
  let code := (first.toNat - 0xE0) * 0x1000 + middle * 0x40 + low
  if 0x800 ≤ code ∧ code.isValidChar then some (Char.ofNat code) else none

/-- The character of a four-byte form. -/
def quadruple? (first second third fourth : UInt8) : Option Char := do
  let high ← continuation? second
  let middle ← continuation? third
  let low ← continuation? fourth
  let code := (first.toNat - 0xF0) * 0x40000 + high * 0x1000 + middle * 0x40 + low
  if 0x10000 ≤ code ∧ code.isValidChar then some (Char.ofNat code) else none

/-- The characters of a byte list, if it is well formed. -/
def decode? : Bytes → Option (List Char)
  | [] => some []
  | first :: rest =>
    if first.toNat < 0x80 then
      (decode? rest).map (Char.ofNat first.toNat :: ·)
    else if first.toNat < 0xC0 then
      none
    else if first.toNat < 0xE0 then
      match rest with
      | second :: rest => do
        let character ← pair? first second
        (decode? rest).map (character :: ·)
      | _ => none
    else if first.toNat < 0xF0 then
      match rest with
      | second :: third :: rest => do
        let character ← triple? first second third
        (decode? rest).map (character :: ·)
      | _ => none
    else if first.toNat < 0xF8 then
      match rest with
      | second :: third :: fourth :: rest => do
        let character ← quadruple? first second third fourth
        (decode? rest).map (character :: ·)
      | _ => none
    else
      none

/-- The text of a byte list, if it is well formed. -/
def text? (bytes : Bytes) : Option String :=
  (decode? bytes).map String.ofList

@[simp]
theorem encode_nil : encode [] = [] := rfl

@[simp]
theorem encode_cons (character : Char) (rest : List Char) :
    encode (character :: rest) = String.utf8EncodeChar character ++ encode rest := by
  simp [encode]

@[simp]
theorem encode_append (left right : List Char) :
    encode (left ++ right) = encode left ++ encode right := by
  simp [encode]

end Utf8

end FeatureAtlas
