import FeatureAtlas.Proofs.Text.Utf8

/-!
# Texts in the order of their bytes

Texts are compared character by character.  A character with a greater code
has a form that is greater at the first byte where the two differ: a form of
more bytes has a greater leading byte, and forms of as many bytes hold the
digits of the codes from the highest one down.  So the bytes of texts, too,
are in the order of the texts.
-/

namespace FeatureAtlas.Utf8

/-! ## The forms of characters -/

/-- The form of a character, by the number of its bytes. -/
theorem utf8EncodeChar_cases (character : Char) :
    (character.toNat < 0x80 ∧
        String.utf8EncodeChar character = [UInt8.ofNat character.toNat]) ∨
      (0x80 ≤ character.toNat ∧ character.toNat < 0x800 ∧
        String.utf8EncodeChar character =
          [UInt8.ofNat (character.toNat / 64 % 0x20 + 0xC0),
            UInt8.ofNat (character.toNat % 0x40 + 0x80)]) ∨
      (0x800 ≤ character.toNat ∧ character.toNat < 0x10000 ∧
        String.utf8EncodeChar character =
          [UInt8.ofNat (character.toNat / 4096 % 0x10 + 0xE0),
            UInt8.ofNat (character.toNat / 64 % 0x40 + 0x80),
            UInt8.ofNat (character.toNat % 0x40 + 0x80)]) ∨
        0x10000 ≤ character.toNat ∧ character.toNat < 0x110000 ∧
          String.utf8EncodeChar character =
            [UInt8.ofNat (character.toNat / 262144 % 0x08 + 0xF0),
              UInt8.ofNat (character.toNat / 4096 % 0x40 + 0x80),
              UInt8.ofNat (character.toNat / 64 % 0x40 + 0x80),
              UInt8.ofNat (character.toNat % 0x40 + 0x80)] := by
  have most : character.toNat < 0x110000 := by
    rcases character.valid with small | ⟨-, bounded⟩
    · exact Nat.lt_trans small (by decide)
    · exact bounded
  have code : character.val.toNat = character.toNat := rfl
  simp only [String.utf8EncodeChar, code]
  by_cases one : character.toNat ≤ 0x7F
  · rw [if_pos one]
    exact Or.inl ⟨Nat.lt_succ_of_le one, rfl⟩
  · rw [if_neg one]
    by_cases two : character.toNat ≤ 0x7FF
    · rw [if_pos two]
      exact Or.inr (Or.inl ⟨by omega, by omega, rfl⟩)
    · rw [if_neg two]
      by_cases three : character.toNat ≤ 0xFFFF
      · rw [if_pos three]
        exact Or.inr (Or.inr (Or.inl ⟨by omega, by omega, rfl⟩))
      · rw [if_neg three]
        exact Or.inr (Or.inr (Or.inr ⟨by omega, most, rfl⟩))

section Bytes

variable {left right : Nat} {first second : Bytes}

theorem cons_lt_of_lt (less : left < right) (small : right < 0x100) :
    UInt8.ofNat left :: first < UInt8.ofNat right :: second := by
  apply List.cons_lt_cons_iff.mpr
  left
  rw [UInt8.lt_iff_toNat_lt, toNat_ofNat (Nat.lt_trans less small),
    toNat_ofNat small]
  exact less

/-- Where the first bytes do not differ, those behind them decide. -/
theorem cons_lt_of_le
    (notGreater : left ≤ right) (small : right < 0x100)
    (further : left = right → first < second) :
    UInt8.ofNat left :: first < UInt8.ofNat right :: second := by
  rcases Nat.lt_or_eq_of_le notGreater with less | rfl
  · exact cons_lt_of_lt less small
  · exact List.cons_lt_cons_iff.mpr (Or.inr ⟨rfl, further rfl⟩)

end Bytes

section Forms

variable {left right : Nat} (less : left < right) (first second : Bytes)
include less

theorem pair_lt (most : right < 0x800) :
    UInt8.ofNat (left / 64 % 0x20 + 0xC0) ::
        UInt8.ofNat (left % 0x40 + 0x80) :: first <
      UInt8.ofNat (right / 64 % 0x20 + 0xC0) ::
        UInt8.ofNat (right % 0x40 + 0x80) :: second := by
  refine cons_lt_of_le (by omega) (by omega) fun high => ?_
  exact cons_lt_of_lt (by omega) (by omega)

theorem triple_lt (most : right < 0x10000) :
    UInt8.ofNat (left / 4096 % 0x10 + 0xE0) ::
        UInt8.ofNat (left / 64 % 0x40 + 0x80) ::
          UInt8.ofNat (left % 0x40 + 0x80) :: first <
      UInt8.ofNat (right / 4096 % 0x10 + 0xE0) ::
        UInt8.ofNat (right / 64 % 0x40 + 0x80) ::
          UInt8.ofNat (right % 0x40 + 0x80) :: second := by
  refine cons_lt_of_le (by omega) (by omega) fun high => ?_
  refine cons_lt_of_le (by omega) (by omega) fun middle => ?_
  exact cons_lt_of_lt (by omega) (by omega)

theorem quadruple_lt (most : right < 0x110000) :
    UInt8.ofNat (left / 262144 % 0x08 + 0xF0) ::
        UInt8.ofNat (left / 4096 % 0x40 + 0x80) ::
          UInt8.ofNat (left / 64 % 0x40 + 0x80) ::
            UInt8.ofNat (left % 0x40 + 0x80) :: first <
      UInt8.ofNat (right / 262144 % 0x08 + 0xF0) ::
        UInt8.ofNat (right / 4096 % 0x40 + 0x80) ::
          UInt8.ofNat (right / 64 % 0x40 + 0x80) ::
            UInt8.ofNat (right % 0x40 + 0x80) :: second := by
  refine cons_lt_of_le (by omega) (by omega) fun highest => ?_
  refine cons_lt_of_le (by omega) (by omega) fun high => ?_
  refine cons_lt_of_le (by omega) (by omega) fun middle => ?_
  exact cons_lt_of_lt (by omega) (by omega)

end Forms

/-! ## Characters and texts -/

/-- A greater code has the greater form, whatever stands behind the forms. -/
theorem utf8EncodeChar_append_lt
    {left right : Char} (less : left.toNat < right.toNat)
    (first second : Bytes) :
    String.utf8EncodeChar left ++ first <
      String.utf8EncodeChar right ++ second := by
  -- Forms of different lengths differ in the leading byte already.
  rcases utf8EncodeChar_cases left with
    ⟨small, form⟩ | ⟨large, small, form⟩ | ⟨large, small, form⟩ |
      ⟨large, small, form⟩
  · rcases utf8EncodeChar_cases right with
      ⟨most, other⟩ | ⟨least, most, other⟩ | ⟨least, most, other⟩ |
        ⟨least, most, other⟩
    · rw [form, other]
      exact cons_lt_of_lt less (by omega)
    · rw [form, other]
      exact cons_lt_of_lt (by omega) (by omega)
    · rw [form, other]
      exact cons_lt_of_lt (by omega) (by omega)
    · rw [form, other]
      exact cons_lt_of_lt (by omega) (by omega)
  · rcases utf8EncodeChar_cases right with
      ⟨most, other⟩ | ⟨least, most, other⟩ | ⟨least, most, other⟩ |
        ⟨least, most, other⟩
    · omega
    · rw [form, other]
      exact pair_lt less first second most
    · rw [form, other]
      exact cons_lt_of_lt (by omega) (by omega)
    · rw [form, other]
      exact cons_lt_of_lt (by omega) (by omega)
  · rcases utf8EncodeChar_cases right with
      ⟨most, other⟩ | ⟨least, most, other⟩ | ⟨least, most, other⟩ |
        ⟨least, most, other⟩
    · omega
    · omega
    · rw [form, other]
      exact triple_lt less first second most
    · rw [form, other]
      exact cons_lt_of_lt (by omega) (by omega)
  · rcases utf8EncodeChar_cases right with
      ⟨most, other⟩ | ⟨least, most, other⟩ | ⟨least, most, other⟩ |
        ⟨least, most, other⟩
    · omega
    · omega
    · omega
    · rw [form, other]
      exact quadruple_lt less first second most

theorem encode_lt_of_lt {left right : List Char} (less : left < right) :
    encode left < encode right := by
  induction less with
  | nil =>
      rw [encode_cons]
      rcases List.exists_cons_of_ne_nil String.utf8EncodeChar_ne_nil with
        ⟨byte, others, form⟩
      rw [form]
      exact List.nil_lt_cons _ _
  | rel before =>
      rw [encode_cons, encode_cons]
      exact utf8EncodeChar_append_lt (UInt32.lt_iff_toNat_lt.mp before) _ _
  | cons _ induction =>
      rw [encode_cons, encode_cons]
      exact List.append_left_lt induction

/-- The bytes of texts are in the order of the texts. -/
theorem ofText_lt_of_lt {left right : String} (less : left < right) :
    ofText left < ofText right :=
  encode_lt_of_lt less

end FeatureAtlas.Utf8
