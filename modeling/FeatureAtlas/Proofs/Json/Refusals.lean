import FeatureAtlas.Proofs.Json.Containers

/-!
# Lists and objects that are refused

The first item of a printed list that its reader refuses decides: the list is
refused for the same problem, whatever stands behind that item.  It is the
same with the first member of an object whose value is refused.
-/

namespace FeatureAtlas.Json

/-- A reader refuses any input that begins with these characters, for one and the same problem. -/
def Reader.Refuses
    {α : Type} (reader : Reader α) (characters : List Char)
    (problem : Problem) : Prop :=
  ∀ rest, reader (Utf8.encode characters ++ rest) = .error problem

section Readers

variable {α : Type} {reader : Reader α} {characters : List Char}
  {problem : Problem}

theorem Reader.Refuses.into
    {σ : Type} (refuses : reader.Refuses characters problem)
    (store : α → σ) :
    (reader.into store).Refuses characters problem := by
  intro rest
  rw [Reader.into, refuses rest]

theorem Reader.Takes.not_refuses
    {result : α} (takes : reader.Takes characters result) :
    ¬reader.Refuses characters problem := by
  intro refuses
  cases (takes []).symm.trans (refuses [])

theorem readDocument_of_refuses
    (refuses : reader.Refuses characters problem) :
    readDocument reader (Utf8.encode characters) = .error problem := by
  have whole := refuses []
  rw [List.append_nil] at whole
  rw [readDocument, whole]
  rfl

end Readers

/-! ## Lists -/

section Items

variable {α : Type} {item : Reader α} {form : α → Value} {items : List α}
  {problem : Problem}

theorem readItems_refused
    (each :
      ∀ value ∈ items,
        item.Takes (form value).written value ∨
          item.Refuses (form value).written problem)
    (opens : ∀ value ∈ items, Opens (form value))
    (refused : ∃ value ∈ items, item.Refuses (form value).written problem)
    {fuel : Nat} (enough : items.length < fuel) (rest : Bytes) :
    readItems item fuel false
        (Utf8.encode (Value.writtenMoreItems (items.map form)) ++
          closeBracket :: rest) =
      .error problem := by
  induction items generalizing fuel with
  | nil =>
      rcases refused with ⟨value, member, -⟩
      cases member
  | cons value items induction =>
      cases fuel with
      | zero => cases enough
      | succ fuel =>
          rcases List.forall_mem_cons.mp each with ⟨here, others⟩
          rcases List.forall_mem_cons.mp opens with ⟨begins, begin⟩
          rw [List.map_cons, readItems, nextItem_more begins]
          rcases here with takes | refuses
          · -- An item that is taken is not the refused one, which is yet to come.
            have later :
                ∃ value ∈ items, item.Refuses (form value).written problem := by
              rcases refused with ⟨bad, member, refuses⟩
              rcases List.mem_cons.mp member with rfl | behind
              · exact absurd refuses takes.not_refuses
              · exact ⟨bad, behind, refuses⟩
            simp only [bind, Except.bind, if_true, takes _,
              induction others begin later (Nat.lt_of_succ_lt_succ enough)]
          · simp only [bind, Except.bind, if_true, refuses _]

/-- A list is refused if one of its items is and the others are taken or refused alike. -/
theorem readList_refuses
    (each :
      ∀ value ∈ items,
        item.Takes (form value).written value ∨
          item.Refuses (form value).written problem)
    (opens : ∀ value ∈ items, Opens (form value))
    (refused : ∃ value ∈ items, item.Refuses (form value).written problem) :
    (readList (some item)).Refuses (Value.array (items.map form)).written
      problem := by
  have begins : ∀ value ∈ items.map form, Opens value :=
    List.forall_mem_map.mpr opens
  have room := length_le_encode_writtenItems begins
  rw [List.length_map] at room
  intro rest
  rw [encode_array_append, readList, skipSpace_cons (by decide)]
  simp only [if_true]
  rw [readAllItems, readItems_first begins]
  refine readItems_refused each opens refused ?_ rest
  simp only [List.length_append]
  omega

/-- Without room for a list even an empty one is too deep. -/
theorem readList_none_refuses (α : Type) (items : List Value) :
    (readList (none : Option (Reader α))).Refuses
      (Value.array items).written .tooDeep := by
  intro rest
  rw [encode_array_append, readList, skipSpace_cons (by decide)]
  rfl

end Items

/-! ## Objects -/

section Objects

variable {σ : Type} {start state : σ} {before later : List (String × Value)}
  {key : String} {value : Value} {reader : Reader σ} {problem : Problem}

theorem readMembers_refused
    {member : σ → String → Except Problem (Reader σ)}
    (gathers : Gathers member start before state)
    (known : member state key = .ok reader)
    (refuses : reader.Refuses value.written problem) {fuel : Nat}
    (enough : before.length < fuel) (rest : Bytes) :
    readMembers member fuel false start
        (Utf8.encode
            (Value.writtenMoreMembers (before ++ (key, value) :: later)) ++
          rest) =
      .error problem := by
  induction gathers generalizing fuel with
  | nil state =>
      cases fuel with
      | zero => cases enough
      | succ fuel =>
          rw [List.nil_append, readMembers_more_cons known, refuses]
          rfl
  | cons first takes others induction =>
      cases fuel with
      | zero => cases enough
      | succ fuel =>
          rw [List.cons_append, readMembers_more_cons first, takes]
          exact induction known (Nat.lt_of_succ_lt_succ enough)

/-- An object is refused for the first of its values that is. -/
theorem readAllMembers_refused
    {member : σ → String → Except Problem (Reader σ)}
    (gathers : Gathers member start before state)
    (known : member state key = .ok reader)
    (refuses : reader.Refuses value.written problem) (rest : Bytes) :
    readAllMembers member start
        (Utf8.encode
            (Value.writtenMembers (before ++ (key, value) :: later)) ++
          closeBrace :: rest) =
      .error problem := by
  have room :=
    length_le_encode_writtenMembers (before ++ (key, value) :: later)
  rw [List.length_append] at room
  rw [readAllMembers, readMembers_first]
  refine readMembers_refused gathers known refuses ?_ _
  simp only [List.length_append]
  omega

variable {shape : RecordShape σ}

/-- A record is refused for the first of its fields that is. -/
theorem RecordShape.readWithin_refuses
    {room : Nat} (deep : room ≠ 0)
    (gathers : Gathers shape.member start before state)
    (known : shape.member state key = .ok reader)
    (refuses : reader.Refuses value.written problem) :
    (shape.readWithin room start).Refuses
      (Value.object (before ++ (key, value) :: later)).written problem := by
  intro rest
  rw [encode_object_append, RecordShape.readWithin,
    skipSpace_cons (by decide)]
  simp only [if_true, if_neg deep, RecordShape.readObject,
    readAllMembers_refused gathers known refuses, bind, Except.bind]

/-- Without room for an object a record is too deep. -/
theorem RecordShape.readWithin_zero_refuses
    (members : List (String × Value)) :
    (shape.readWithin 0 start).Refuses (Value.object members).written
      .tooDeep := by
  intro rest
  rw [encode_object_append, RecordShape.readWithin,
    skipSpace_cons (by decide)]
  rfl

end Objects

end FeatureAtlas.Json
