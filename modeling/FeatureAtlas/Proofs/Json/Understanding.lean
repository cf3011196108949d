import FeatureAtlas.Proofs.Json.Spellings

/-!
# Readers of lists and objects in any spelling

A list is understood if its items are.  The members of an object are taken
into a state one by one, each by the reader that its key asks for; if each of
them understands its value, an object in any spelling ends in the last state.
-/

namespace FeatureAtlas.Json

theorem blank_nil : Blank [] :=
  List.forall_mem_nil _

theorem Reader.Understands.consumes
    {α : Type} {reader : Reader α} {value : Value} {result : α}
    (understands : reader.Understands value result) {data : Bytes}
    (spelled : Spells value data) : reader.Consumes data result :=
  understands [] data blank_nil spelled

/-- Each further item takes up at least its comma. -/
theorem SpellsMore.length_le
    {α : Type} {spells : α → Bytes → Prop} {items : List α} {data : Bytes}
    (spelled : SpellsMore spells items data) :
    items.length ≤ data.length := by
  induction spelled with
  | nil => exact Nat.zero_le _
  | cons _ _ _ _ induction =>
      simp only [List.length_cons, List.length_append]
      omega

/-! ## Lists -/

/-- A spelled value begins with a byte that is neither white space nor the end of a list. -/
theorem Spells.opens
    {value : Value} {data : Bytes} (spelled : Spells value data) :
    ∃ byte rest,
      data = byte :: rest ∧ isSpaceByte byte = false ∧ byte ≠ closeBracket := by
  cases spelled with
  | text spelled =>
      obtain ⟨content, rfl, -⟩ := spelled.exists_content
      exact ⟨quoteByte, content, rfl, by decide, by decide⟩
  | array => exact ⟨openBracket, _, rfl, by decide, by decide⟩
  | object => exact ⟨openBrace, _, rfl, by decide, by decide⟩

section Items

variable {before between data rest : Bytes} {value : Value}

theorem nextItem_end
    (first : Bool) (isBlank : Blank before) (rest : Bytes) :
    nextItem first (before ++ closeBracket :: rest) = .ok (false, rest) := by
  rw [nextItem, skipSpace_blank isBlank, skipSpace_cons (by decide)]
  exact if_pos rfl

theorem nextItem_first_spelled
    (isBlank : Blank before) (spelled : Spells value data) (rest : Bytes) :
    nextItem true (before ++ (data ++ rest)) = .ok (true, data ++ rest) := by
  obtain ⟨byte, form, rfl, solid, other⟩ := spelled.opens
  rw [nextItem, skipSpace_blank isBlank, List.cons_append,
    skipSpace_cons solid]
  simp only [if_neg other, if_true]

theorem nextItem_more_spelled
    (isBlank : Blank before) (isBlankBetween : Blank between)
    (spelled : Spells value data) (rest : Bytes) :
    nextItem false (before ++ commaByte :: (between ++ (data ++ rest))) =
      .ok (true, data ++ rest) := by
  obtain ⟨byte, form, rfl, solid, other⟩ := spelled.opens
  have noEnd : commaByte ≠ closeBracket := by decide
  rw [nextItem, skipSpace_blank isBlank, skipSpace_cons (by decide)]
  simp only [if_neg noEnd, Bool.false_eq_true, if_false, if_true,
    skipSpace_blank isBlankBetween, List.cons_append, skipSpace_cons solid,
    if_neg other]

variable {α : Type} {item : Reader α} {form : α → Value} {results : List α}

theorem SpellsMore.readItems
    (spelled : SpellsMore Spells (results.map form) data)
    (understands :
      ∀ result ∈ results, item.Understands (form result) result)
    {fuel : Nat} (enough : results.length < fuel) (rest : Bytes) :
    Json.readItems item fuel false (data ++ closeBracket :: rest) =
      .ok (results, rest) := by
  induction results generalizing fuel data with
  | nil =>
      obtain ⟨isBlank⟩ := spelled
      cases fuel with
      | zero => cases enough
      | succ fuel =>
          rw [Json.readItems, nextItem_end false isBlank]
          rfl
  | cons result results induction =>
      obtain ⟨here, others⟩ := List.forall_mem_cons.mp understands
      obtain _ | ⟨isBlank, isBlankBetween, one, more⟩ := spelled
      cases fuel with
      | zero => cases enough
      | succ fuel =>
          have later := induction more others (Nat.lt_of_succ_lt_succ enough)
          simp only [List.append_assoc, List.cons_append]
          exact
            readItems_cons
              (nextItem_more_spelled isBlank isBlankBetween one _)
              (here.consumes one _) later

/-- All items are read, up to the closing bracket. -/
theorem SpellsItems.readAllItems
    (spelled : SpellsItems Spells (results.map form) data)
    (understands :
      ∀ result ∈ results, item.Understands (form result) result)
    (rest : Bytes) :
    Json.readAllItems item (data ++ closeBracket :: rest) =
      .ok (results, rest) := by
  rw [Json.readAllItems]
  cases results with
  | nil =>
      obtain ⟨isBlank⟩ := spelled
      rw [Json.readItems, nextItem_end true isBlank]
      rfl
  | cons result results =>
      obtain ⟨here, others⟩ := List.forall_mem_cons.mp understands
      obtain _ | ⟨isBlank, one, more⟩ := spelled
      have short := more.length_le
      rw [List.length_map] at short
      simp only [List.append_assoc]
      refine
        readItems_cons (nextItem_first_spelled isBlank one _)
          (here.consumes one _) (more.readItems others ?_ rest)
      simp only [List.length_append, List.length_cons]
      omega

end Items

/-- A list is read where one is expected if its items are. -/
theorem readList_understands
    {α : Type} {item : Reader α} {form : α → Value} {results : List α}
    (understands :
      ∀ result ∈ results, item.Understands (form result) result) :
    (readList (some item)).Understands (.array (results.map form))
      results := by
  rintro before _ isBlank (_ | ⟨spelled⟩) rest
  rw [readList, List.append_assoc, skipSpace_blank isBlank, List.cons_append,
    skipSpace_cons (by decide), List.append_assoc, List.singleton_append]
  exact (if_pos rfl).trans (spelled.readAllItems understands rest)

/-- A list of texts is read where one is expected. -/
theorem readList_understands_texts (texts : List String) :
    (readList (some readText)).Understands (.texts texts) texts :=
  readList_understands fun text _ => readText_understands text

/-! ## Objects -/

/-- Members take the state to another one, each understood by its own reader. -/
inductive Absorbs
    {σ : Type} (member : σ → String → Except Problem (Reader σ)) :
    σ → List (String × Value) → σ → Prop where
  | nil (state : σ) : Absorbs member state [] state
  | cons
      {state next final : σ} {key : String} {value : Value}
      {members : List (String × Value)} {reader : Reader σ}
      (known : member state key = .ok reader)
      (understands : reader.Understands value next)
      (others : Absorbs member next members final) :
      Absorbs member state ((key, value) :: members) final

section Objects

variable {σ : Type} {member : σ → String → Except Problem (Reader σ)}

theorem Absorbs.append
    {state middle final : σ} {first second : List (String × Value)}
    (before : Absorbs member state first middle)
    (behind : Absorbs member middle second final) :
    Absorbs member state (first ++ second) final := by
  induction before with
  | nil => exact behind
  | cons known understands _ induction =>
      exact .cons known understands (induction behind)

variable {before between after data rest : Bytes} {key : String}

theorem nextKey_end
    (first : Bool) (isBlank : Blank before) (rest : Bytes) :
    nextKey first (before ++ closeBrace :: rest) = .ok (none, rest) := by
  rw [nextKey, skipSpace_blank isBlank, skipSpace_cons (by decide)]
  exact if_pos rfl

theorem nextKey_first_spelled
    (isBlank : Blank before) (named : SpellsText key data) (rest : Bytes) :
    nextKey true (before ++ (data ++ rest)) = .ok (some key, rest) := by
  obtain ⟨content, rfl, both⟩ := named.exists_content
  rw [nextKey, skipSpace_blank isBlank, List.cons_append, skipSpace_quote]
  simp only [(both rest).1, bind, Except.bind]
  rfl

theorem nextKey_more_spelled
    (isBlank : Blank before) (isBlankBetween : Blank between)
    (named : SpellsText key data) (rest : Bytes) :
    nextKey false (before ++ commaByte :: (between ++ (data ++ rest))) =
      .ok (some key, rest) := by
  obtain ⟨content, rfl, both⟩ := named.exists_content
  rw [nextKey, skipSpace_blank isBlank, skipSpace_cons (by decide)]
  simp only [skipSpace_blank isBlankBetween, List.cons_append,
    skipSpace_quote, (both rest).1, bind, Except.bind]
  rfl

theorem takeColon_blank (isBlank : Blank before) (rest : Bytes) :
    takeColon (before ++ colonByte :: rest) = .ok rest := by
  rw [takeColon, skipSpace_blank isBlank, skipSpace_cons (by decide)]
  exact if_pos rfl

theorem SpellsMore.readMembers
    {state final : σ} {members : List (String × Value)}
    (spelled : SpellsMore (SpellsMember Spells) members data)
    (absorbs : Absorbs member state members final) {fuel : Nat}
    (enough : members.length < fuel) (rest : Bytes) :
    Json.readMembers member fuel false state (data ++ closeBrace :: rest) =
      .ok (final, rest) := by
  induction absorbs generalizing fuel data with
  | nil state =>
      obtain ⟨isBlank⟩ := spelled
      cases fuel with
      | zero => cases enough
      | succ fuel =>
          rw [Json.readMembers, nextKey_end false isBlank]
          rfl
  | cons known understands _ induction =>
      obtain _ | ⟨isBlank, isBlankBetween, one, more⟩ := spelled
      obtain ⟨named, isBlankColon, isBlankAfter, value⟩ := one
      cases fuel with
      | zero => cases enough
      | succ fuel =>
          have here := understands _ _ isBlankAfter value
          simp only [Reader.Consumes, List.append_assoc] at here
          simp only [List.append_assoc, List.cons_append]
          rw [readMembers_cons
            (nextKey_more_spelled isBlank isBlankBetween named _)
            (takeColon_blank isBlankColon _) known, here]
          exact induction more (Nat.lt_of_succ_lt_succ enough)

/-- All members are read, up to the closing brace. -/
theorem SpellsItems.readAllMembers
    {start final : σ} {members : List (String × Value)}
    (spelled : SpellsItems (SpellsMember Spells) members data)
    (absorbs : Absorbs member start members final) (rest : Bytes) :
    Json.readAllMembers member start (data ++ closeBrace :: rest) =
      .ok (final, rest) := by
  rw [Json.readAllMembers]
  cases absorbs with
  | nil =>
      obtain ⟨isBlank⟩ := spelled
      rw [Json.readMembers, nextKey_end true isBlank]
      rfl
  | cons known understands others =>
      obtain _ | ⟨isBlank, one, more⟩ := spelled
      obtain ⟨named, isBlankColon, isBlankAfter, value⟩ := one
      have short := more.length_le
      have here := understands _ _ isBlankAfter value
      simp only [Reader.Consumes, List.append_assoc] at here
      simp only [List.append_assoc, List.cons_append]
      rw [readMembers_cons (nextKey_first_spelled isBlank named _)
        (takeColon_blank isBlankColon _) known, here]
      refine more.readMembers others ?_ rest
      simp only [List.length_append, List.length_cons]
      omega

end Objects

/-- A record is understood if its members are and none that it needs is missing. -/
theorem RecordShape.readWithin_understands
    {σ : Type} {shape : RecordShape σ} {start final : σ}
    {members : List (String × Value)} {room : Nat} (deep : room ≠ 0)
    (absorbs : Absorbs shape.member start members final)
    (complete : shape.missing? final = none) :
    (shape.readWithin room start).Understands (.object members) final := by
  rintro before _ isBlank (_ | _ | ⟨spelled⟩) rest
  rw [RecordShape.readWithin, List.append_assoc, skipSpace_blank isBlank,
    List.cons_append, skipSpace_cons (by decide), List.append_assoc,
    List.singleton_append]
  simp only [if_true, if_neg deep, RecordShape.readObject,
    spelled.readAllMembers absorbs, bind, Except.bind, complete]

/-- A document in any spelling holds what its reader understands. -/
theorem readDocument_of_understands
    {α : Type} {reader : Reader α} {value : Value} {result : α}
    (understands : reader.Understands value result) {data : Bytes}
    (spelled : SpellsDocument value data) :
    readDocument reader data = .ok result := by
  obtain ⟨before, form, after, isBlank, whole, isBlankAfter, rfl⟩ := spelled
  have read := understands before form isBlank whole after
  have ended : skipSpace after = [] := by
    have skipped := skipSpace_blank isBlankAfter []
    rwa [List.append_nil] at skipped
  rw [List.append_assoc] at read
  rw [readDocument, read]
  simp only [bind, Except.bind, ended]

end FeatureAtlas.Json
