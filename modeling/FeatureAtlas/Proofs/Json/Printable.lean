import FeatureAtlas.Proofs.Json.Strings

/-!
# Printed values have no control characters

Every control character within a string is escaped, and nothing else that is
printed is a control character.  So a printed value never breaks a line.
-/

namespace FeatureAtlas.Json

/-- No character is a control character. -/
def Printable (characters : List Char) : Prop :=
  ∀ character ∈ characters, 0x20 ≤ character.toNat

instance (characters : List Char) : Decidable (Printable characters) :=
  List.decidableBAll (0x20 ≤ Char.toNat ·) characters

theorem Printable.append
    {first second : List Char} (left : Printable first)
    (right : Printable second) :
    Printable (first ++ second) := by
  intro character member
  rcases List.mem_append.mp member with here | there
  · exact left character here
  · exact right character there

theorem Printable.cons
    {character : Char} {rest : List Char} (here : 0x20 ≤ character.toNat)
    (others : Printable rest) :
    Printable (character :: rest) :=
  List.forall_mem_cons.mpr ⟨here, others⟩

theorem printable_nil : Printable [] :=
  List.forall_mem_nil _

/-- The bytes of printable characters are no control bytes. -/
theorem Printable.le_toNat
    {characters : List Char} (printable : Printable characters)
    {byte : UInt8} (member : byte ∈ Utf8.encode characters) :
    0x20 ≤ byte.toNat := by
  rcases Nat.lt_or_ge byte.toNat 0x80 with ascii | beyond
  · obtain ⟨character, characterIn, same⟩ :=
      Utf8.exists_of_mem_encode member ascii
    rw [← same]
    exact printable character characterIn
  · exact Nat.le_trans (by decide) beyond

theorem printable_escape (character : Char) :
    Printable (escape character) := by
  unfold Printable escape
  by_cases control : character.toNat < 0x20
  · have high := hexDigit_bounds (character.toNat / 16) (by omega)
    have low := hexDigit_bounds (character.toNat % 16) (by omega)
    repeat' split
    all_goals simp
    exact ⟨high.1, low.1⟩
  · repeat' split
    all_goals simp
    all_goals omega

/-- A string is printed without control characters. -/
theorem printable_quoted (text : String) : Printable (quoted text) := by
  refine .append (.cons (by decide) ?_) (.cons (by decide) printable_nil)
  intro character member
  rcases List.mem_flatMap.mp member with ⟨source, -, escaped⟩
  exact printable_escape source character escaped

theorem printable_writtenMoreItems
    {items : List Value} (each : ∀ item ∈ items, Printable item.written) :
    Printable (Value.writtenMoreItems items) := by
  induction items with
  | nil => exact printable_nil
  | cons item items induction =>
      rcases List.forall_mem_cons.mp each with ⟨here, others⟩
      exact (Printable.cons (by decide) here).append (induction others)

/-- A list of texts is printed without control characters. -/
theorem printable_texts (texts : List String) :
    Printable (Value.texts texts).written := by
  have each :
      ∀ item ∈ texts.map Value.text, Printable item.written := by
    intro item member
    rcases List.mem_map.mp member with ⟨text, -, rfl⟩
    exact printable_quoted text
  refine .append (.cons (by decide) ?_) (.cons (by decide) printable_nil)
  cases texts with
  | nil => exact printable_nil
  | cons text texts =>
      rcases List.forall_mem_cons.mp each with ⟨here, others⟩
      exact here.append (printable_writtenMoreItems others)

theorem printable_member
    (key : String) {value : Value} (printable : Printable value.written) :
    Printable (quoted key ++ ':' :: value.written) :=
  (printable_quoted key).append (.cons (by decide) printable)

theorem printable_writtenMoreMembers
    {members : List (String × Value)}
    (each : ∀ entry ∈ members, Printable entry.2.written) :
    Printable (Value.writtenMoreMembers members) := by
  induction members with
  | nil => exact printable_nil
  | cons entry members induction =>
      rcases List.forall_mem_cons.mp each with ⟨here, others⟩
      exact
        .cons (by decide)
          ((printable_member entry.1 here).append (induction others))

/-- An object is printed without control characters if its values are. -/
theorem printable_object
    {members : List (String × Value)}
    (each : ∀ entry ∈ members, Printable entry.2.written) :
    Printable (Value.object members).written := by
  refine .append (.cons (by decide) ?_) (.cons (by decide) printable_nil)
  cases members with
  | nil => exact printable_nil
  | cons entry members =>
      rcases List.forall_mem_cons.mp each with ⟨here, others⟩
      exact
        (printable_member entry.1 here).append
          (printable_writtenMoreMembers others)

end FeatureAtlas.Json
