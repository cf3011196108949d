import FeatureAtlas.Json.Record
import FeatureAtlas.Proofs.Json.Strings

/-!
# Lists and objects that were printed

A printed list is read back as it was if each of its items is.  An object is
read member by member, whatever the readers of its members make of them: if
each of them takes its printed value into the state, reading the printed
object ends in the last state.  The bound on the number of items or members is
never met, for each of them takes up at least a byte.
-/

namespace FeatureAtlas.Json

theorem skipSpace_cons
    {byte : UInt8} (solid : isSpaceByte byte = false) (rest : Bytes) :
    skipSpace (byte :: rest) = byte :: rest :=
  List.dropWhile_cons_of_neg (by simp [solid])

/-! ## Texts -/

theorem encode_quoted_append (text : String) (rest : Bytes) :
    Utf8.encode (quoted text) ++ rest =
      quoteByte ::
        (Utf8.encode (text.toList.flatMap escape) ++ quoteByte :: rest) := by
  rw [encode_quoted, List.cons_append, List.append_assoc,
    List.singleton_append]

theorem skipSpace_quoted (text : String) (rest : Bytes) :
    skipSpace (Utf8.encode (quoted text) ++ rest) =
      Utf8.encode (quoted text) ++ rest := by
  rw [encode_quoted_append]
  exact skipSpace_cons (by decide) _

/-- A text is read where a text is expected. -/
theorem readText_takes (text : String) :
    readText.Takes (Value.text text).written text := by
  intro rest
  rw [Value.written, readText, readTextAs, skipSpace_quoted,
    encode_quoted_append]
  exact (if_pos rfl).trans (scanText_quoted text rest)

/-- A text is read where any value is expected. -/
theorem readValue_takes_text (room : Nat) (text : String) :
    (readValue room).Takes (Value.text text).written (.text text) := by
  have noBracket : quoteByte ≠ openBracket := by decide
  have noBrace : quoteByte ≠ openBrace := by decide
  have noNull : quoteByte ≠ 0x6E := by decide
  have noTrue : quoteByte ≠ 0x74 := by decide
  have noFalse : quoteByte ≠ 0x66 := by decide
  have noMinus : quoteByte ≠ minusByte := by decide
  have noDigit : isDigitByte quoteByte = false := by decide
  intro rest
  rw [Value.written, readValue.eq_def, skipSpace_quoted,
    encode_quoted_append]
  simp only [if_neg noBracket, if_neg noBrace, if_neg noNull,
    if_neg noTrue, if_neg noFalse, if_neg noMinus, noDigit,
    Bool.false_eq_true, if_false, if_true, scanText_quoted, bind,
    Except.bind]

/-! ## Lists -/

/-- The printed value begins with a byte that is neither white space nor the end of a list. -/
def Opens (value : Value) : Prop :=
  ∃ byte rest,
    Utf8.encode value.written = byte :: rest ∧ isSpaceByte byte = false ∧
      byte ≠ closeBracket

theorem opens_text (text : String) : Opens (.text text) :=
  ⟨quoteByte, _, encode_quoted text, by decide, by decide⟩

theorem opens_object (members : List (String × Value)) :
    Opens (.object members) := by
  have whole :
      Utf8.encode (Value.object members).written =
        openBrace ::
          Utf8.encode (Value.writtenMembers members ++ ['\x7d']) := by
    rw [Value.written, List.cons_append, Utf8.encode_cons]
    rfl
  exact ⟨openBrace, _, whole, by decide, by decide⟩

theorem encode_writtenMoreItems_cons (item : Value) (items : List Value) :
    Utf8.encode (Value.writtenMoreItems (item :: items)) =
      commaByte ::
        (Utf8.encode item.written ++
          Utf8.encode (Value.writtenMoreItems items)) := by
  rw [Value.writtenMoreItems, List.cons_append, Utf8.encode_cons,
    Utf8.encode_append]
  rfl

theorem length_le_encode_writtenMoreItems (items : List Value) :
    items.length ≤
      (Utf8.encode (Value.writtenMoreItems items)).length := by
  induction items with
  | nil => exact Nat.zero_le _
  | cons item items induction =>
      rw [encode_writtenMoreItems_cons]
      simp only [List.length_cons, List.length_append]
      omega

theorem length_le_encode_writtenItems
    {items : List Value} (opens : ∀ value ∈ items, Opens value) :
    items.length ≤ (Utf8.encode (Value.writtenItems items)).length := by
  cases items with
  | nil => exact Nat.zero_le _
  | cons item items =>
      have others := length_le_encode_writtenMoreItems items
      rcases opens item (List.mem_cons_self ..) with ⟨byte, rest, form, -⟩
      rw [Value.writtenItems, Utf8.encode_append, form]
      simp only [List.length_cons, List.length_append]
      omega

section Items

variable {α : Type} {item : Reader α}

/-- The next item of a list, with what follows it, is found behind a comma. -/
theorem nextItem_more
    {value : Value} (opens : Opens value) (items : List Value)
    (rest : Bytes) :
    nextItem false
        (Utf8.encode (Value.writtenMoreItems (value :: items)) ++ rest) =
      .ok
        (true,
          Utf8.encode value.written ++
            (Utf8.encode (Value.writtenMoreItems items) ++ rest)) := by
  rcases opens with ⟨byte, form, whole, solid, other⟩
  rw [encode_writtenMoreItems_cons, List.cons_append, List.append_assoc,
    nextItem, skipSpace_cons (by decide), whole, List.cons_append]
  simp only [skipSpace_cons solid, if_neg other]
  rfl

theorem nextItem_first
    {value : Value} (opens : Opens value) (rest : Bytes) :
    nextItem true (Utf8.encode value.written ++ rest) =
      .ok (true, Utf8.encode value.written ++ rest) := by
  rcases opens with ⟨byte, form, whole, solid, other⟩
  rw [nextItem, whole, List.cons_append, skipSpace_cons solid]
  simp only [if_neg other, if_true]

/-- The first item is read without a comma as the others are behind theirs. -/
theorem readItems_first
    {items : List Value} (opens : ∀ value ∈ items, Opens value) (fuel : Nat)
    (rest : Bytes) :
    readItems item fuel true
        (Utf8.encode (Value.writtenItems items) ++ closeBracket :: rest) =
      readItems item fuel false
        (Utf8.encode (Value.writtenMoreItems items) ++
          closeBracket :: rest) := by
  cases fuel with
  | zero => rfl
  | succ fuel =>
      cases items with
      | nil => rfl
      | cons value items =>
          have here := opens value (List.mem_cons_self ..)
          rw [Value.writtenItems, Utf8.encode_append, List.append_assoc,
            readItems, readItems, nextItem_first here, nextItem_more here]

/-- The items are the next one, where the reader of items takes it, and those behind it. -/
theorem readItems_cons
    {result : α} {results : List α} {fuel : Nat} {first : Bool}
    {input here behind after : Bytes}
    (found : nextItem first input = .ok (true, here))
    (taken : item here = .ok (result, behind))
    (others : readItems item fuel false behind = .ok (results, after)) :
    readItems item (fuel + 1) first input =
      .ok (result :: results, after) := by
  rw [readItems, found]
  simp only [bind, Except.bind, if_true, taken, others]

variable {form : α → Value} {results : List α}

theorem readItems_more
    (takes : ∀ result ∈ results, item.Takes (form result).written result)
    (opens : ∀ result ∈ results, Opens (form result)) {fuel : Nat}
    (enough : results.length < fuel) (rest : Bytes) :
    readItems item fuel false
        (Utf8.encode (Value.writtenMoreItems (results.map form)) ++
          closeBracket :: rest) =
      .ok (results, rest) := by
  induction results generalizing fuel with
  | nil =>
      cases fuel with
      | zero => cases enough
      | succ fuel => rfl
  | cons result results induction =>
      cases fuel with
      | zero => cases enough
      | succ fuel =>
          have shorter : results.length < fuel :=
            Nat.lt_of_succ_lt_succ enough
          rcases List.forall_mem_cons.mp takes with ⟨here, others⟩
          rcases List.forall_mem_cons.mp opens with ⟨begins, begin⟩
          exact
            readItems_cons (nextItem_more begins _ _) (here _)
              (induction others begin shorter)

/-- All items of a printed list are read, up to its closing bracket. -/
theorem readAllItems_written
    (takes : ∀ result ∈ results, item.Takes (form result).written result)
    (opens : ∀ result ∈ results, Opens (form result)) (rest : Bytes) :
    readAllItems item
        (Utf8.encode (Value.writtenItems (results.map form)) ++
          closeBracket :: rest) =
      .ok (results, rest) := by
  have begins : ∀ value ∈ results.map form, Opens value :=
    List.forall_mem_map.mpr opens
  have room := length_le_encode_writtenItems begins
  rw [List.length_map] at room
  rw [readAllItems, readItems_first begins]
  refine readItems_more takes opens ?_ rest
  simp only [List.length_append]
  omega

end Items

/-- A printed list begins with its bracket. -/
theorem encode_array_append (items : List Value) (rest : Bytes) :
    Utf8.encode (Value.array items).written ++ rest =
      openBracket ::
        (Utf8.encode (Value.writtenItems items) ++
          closeBracket :: rest) := by
  rw [Value.written, List.cons_append, Utf8.encode_cons,
    Utf8.encode_append, List.append_assoc, List.append_assoc]
  rfl

/-- A list is read where one is expected if its items are. -/
theorem readList_takes
    {α : Type} {item : Reader α} {form : α → Value} {results : List α}
    (takes : ∀ result ∈ results, item.Takes (form result).written result)
    (opens : ∀ result ∈ results, Opens (form result)) :
    (readList (some item)).Takes (Value.array (results.map form)).written
      results := by
  intro rest
  rw [encode_array_append, readList, skipSpace_cons (by decide)]
  exact readAllItems_written takes opens rest

/-- A list of texts is read where one is expected. -/
theorem readList_takes_texts (texts : List String) :
    (readList (some readText)).Takes (Value.texts texts).written texts :=
  readList_takes (fun text _ => readText_takes text)
    fun text _ => opens_text text

/-- A list of texts is read where any value is expected, if there is room for a list. -/
theorem readValue_takes_texts (room : Nat) (texts : List String) :
    (readValue (room + 1)).Takes (Value.texts texts).written
      (.texts texts) := by
  have taken : ∀ value ∈ texts.map Value.text,
      (readValue room).Takes value.written value :=
    List.forall_mem_map.mpr fun text _ => readValue_takes_text room text
  have opens : ∀ value ∈ texts.map Value.text, Opens value :=
    List.forall_mem_map.mpr fun text _ => opens_text text
  intro rest
  have items := readAllItems_written taken opens rest
  rw [List.map_id'] at items
  rw [Value.texts, encode_array_append, readValue.eq_def,
    skipSpace_cons (by decide)]
  simp only [if_true, items, bind, Except.bind]

/-! ## Objects -/

/-- The printed members take the state to another one, each by its own reader. -/
inductive Gathers
    {σ : Type} (member : σ → String → Except Problem (Reader σ)) :
    σ → List (String × Value) → σ → Prop where
  | nil (state : σ) : Gathers member state [] state
  | cons
      {state next final : σ} {key : String} {value : Value}
      {members : List (String × Value)} {reader : Reader σ}
      (known : member state key = .ok reader)
      (takes : reader.Takes value.written next)
      (others : Gathers member next members final) :
      Gathers member state ((key, value) :: members) final

section Objects

variable {σ : Type} {member : σ → String → Except Problem (Reader σ)}

theorem encode_writtenMoreMembers_cons
    (key : String) (value : Value) (members : List (String × Value)) :
    Utf8.encode (Value.writtenMoreMembers ((key, value) :: members)) =
      commaByte ::
        (Utf8.encode (quoted key) ++
          colonByte ::
            (Utf8.encode value.written ++
              Utf8.encode (Value.writtenMoreMembers members))) := by
  rw [Value.writtenMoreMembers]
  simp only [List.cons_append, Utf8.encode_cons, Utf8.encode_append,
    List.append_assoc]
  rfl

theorem encode_writtenMembers_cons
    (key : String) (value : Value) (members : List (String × Value)) :
    Utf8.encode (Value.writtenMembers ((key, value) :: members)) =
      Utf8.encode (quoted key) ++
        colonByte ::
          (Utf8.encode value.written ++
            Utf8.encode (Value.writtenMoreMembers members)) := by
  rw [Value.writtenMembers]
  simp only [List.cons_append, Utf8.encode_cons, Utf8.encode_append,
    List.append_assoc]
  rfl

theorem length_le_encode_writtenMoreMembers
    (members : List (String × Value)) :
    members.length ≤
      (Utf8.encode (Value.writtenMoreMembers members)).length := by
  induction members with
  | nil => exact Nat.zero_le _
  | cons entry members induction =>
      rw [encode_writtenMoreMembers_cons]
      simp only [List.length_cons, List.length_append]
      omega

theorem length_le_encode_writtenMembers (members : List (String × Value)) :
    members.length ≤
      (Utf8.encode (Value.writtenMembers members)).length := by
  cases members with
  | nil => exact Nat.zero_le _
  | cons entry members =>
      have others := length_le_encode_writtenMoreMembers members
      rw [encode_writtenMembers_cons]
      simp only [List.length_cons, List.length_append]
      omega

/-- The next key of an object, with what follows it, is found behind a comma. -/
theorem nextKey_more
    (key : String) (value : Value) (members : List (String × Value))
    (rest : Bytes) :
    nextKey false
        (Utf8.encode (Value.writtenMoreMembers ((key, value) :: members)) ++
          rest) =
      .ok
        (some key,
          colonByte ::
            (Utf8.encode value.written ++
              (Utf8.encode (Value.writtenMoreMembers members) ++ rest))) := by
  have quoted : isSpaceByte quoteByte = false := by decide
  rw [encode_writtenMoreMembers_cons, List.cons_append, List.append_assoc,
    List.cons_append, List.append_assoc, nextKey, skipSpace_cons (by decide)]
  simp only [encode_quoted_append, skipSpace_cons quoted, scanText_quoted,
    bind, Except.bind]
  rfl

theorem nextKey_first
    (key : String) (value : Value) (members : List (String × Value))
    (rest : Bytes) :
    nextKey true
        (Utf8.encode (Value.writtenMembers ((key, value) :: members)) ++
          rest) =
      .ok
        (some key,
          colonByte ::
            (Utf8.encode value.written ++
              (Utf8.encode (Value.writtenMoreMembers members) ++ rest))) := by
  rw [encode_writtenMembers_cons, List.append_assoc, List.cons_append,
    List.append_assoc, nextKey, skipSpace_quoted, encode_quoted_append]
  simp only [scanText_quoted, bind, Except.bind]
  rfl

theorem takeColon_colon (rest : Bytes) :
    takeColon (colonByte :: rest) = .ok rest := by
  rw [takeColon, skipSpace_cons (by decide)]
  exact if_pos rfl

/-- The first member is read without a comma as the others are behind theirs. -/
theorem readMembers_first
    (members : List (String × Value)) (fuel : Nat) (state : σ)
    (rest : Bytes) :
    readMembers member fuel true state
        (Utf8.encode (Value.writtenMembers members) ++
          closeBrace :: rest) =
      readMembers member fuel false state
        (Utf8.encode (Value.writtenMoreMembers members) ++
          closeBrace :: rest) := by
  cases fuel with
  | zero => rfl
  | succ fuel =>
      cases members with
      | nil => rfl
      | cons entry members =>
          rw [readMembers, readMembers, nextKey_first, nextKey_more]

/-- Behind its key and the colon, the value of a member is up to the reader of the key. -/
theorem readMembers_cons
    {first : Bool} {input behind here : Bytes} {state : σ} {key : String}
    {reader : Reader σ}
    (found : nextKey first input = .ok (some key, behind))
    (colon : takeColon behind = .ok here)
    (known : member state key = .ok reader) (fuel : Nat) :
    readMembers member (fuel + 1) first state input =
      (reader here).bind fun (next, rest) =>
        readMembers member fuel false next rest := by
  rw [readMembers, found]
  simp only [bind, Except.bind, known, colon]

theorem readMembers_more_cons
    {state : σ} {key : String} {reader : Reader σ}
    (known : member state key = .ok reader) (value : Value)
    (members : List (String × Value)) (fuel : Nat) (rest : Bytes) :
    readMembers member (fuel + 1) false state
        (Utf8.encode (Value.writtenMoreMembers ((key, value) :: members)) ++
          rest) =
      (reader
          (Utf8.encode value.written ++
            (Utf8.encode (Value.writtenMoreMembers members) ++ rest))).bind
        fun (next, rest) => readMembers member fuel false next rest :=
  readMembers_cons (nextKey_more key value members rest) (takeColon_colon _)
    known fuel

theorem readMembers_more
    {state final : σ} {members : List (String × Value)}
    (gathers : Gathers member state members final) {fuel : Nat}
    (enough : members.length < fuel) (rest : Bytes) :
    readMembers member fuel false state
        (Utf8.encode (Value.writtenMoreMembers members) ++
          closeBrace :: rest) =
      .ok (final, rest) := by
  induction gathers generalizing fuel with
  | nil state =>
      cases fuel with
      | zero => cases enough
      | succ fuel => rfl
  | cons known takes others induction =>
      cases fuel with
      | zero => cases enough
      | succ fuel =>
          rw [readMembers_more_cons known, takes]
          exact induction (Nat.lt_of_succ_lt_succ enough)

/-- All members of a printed object are read, up to its closing brace. -/
theorem readAllMembers_written
    {start final : σ} {members : List (String × Value)}
    (gathers : Gathers member start members final) (rest : Bytes) :
    readAllMembers member start
        (Utf8.encode (Value.writtenMembers members) ++
          closeBrace :: rest) =
      .ok (final, rest) := by
  have room := length_le_encode_writtenMembers members
  rw [readAllMembers, readMembers_first]
  refine readMembers_more gathers ?_ rest
  simp only [List.length_append]
  omega

end Objects

/-- A printed object begins with its brace. -/
theorem encode_object_append
    (members : List (String × Value)) (rest : Bytes) :
    Utf8.encode (Value.object members).written ++ rest =
      openBrace ::
        (Utf8.encode (Value.writtenMembers members) ++
          closeBrace :: rest) := by
  rw [Value.written, List.cons_append, Utf8.encode_cons,
    Utf8.encode_append, List.append_assoc, List.append_assoc]
  rfl

/-- A record is read from its printed members if none that it needs is missing. -/
theorem RecordShape.readWithin_takes
    {σ : Type} {shape : RecordShape σ} {start final : σ}
    {members : List (String × Value)} {room : Nat} (deep : room ≠ 0)
    (gathers : Gathers shape.member start members final)
    (complete : shape.missing? final = none) :
    (shape.readWithin room start).Takes (Value.object members).written
      final := by
  intro rest
  rw [encode_object_append, RecordShape.readWithin,
    skipSpace_cons (by decide)]
  simp only [if_true, if_neg deep, RecordShape.readObject,
    readAllMembers_written gathers, bind, Except.bind, complete]

/-- A document holds what its reader takes. -/
theorem readDocument_of_takes
    {α : Type} {reader : Reader α} {characters : List Char} {result : α}
    (takes : reader.Takes characters result) :
    readDocument reader (Utf8.encode characters) = .ok result := by
  have whole := takes []
  rw [List.append_nil] at whole
  rw [readDocument, whole]
  rfl

end FeatureAtlas.Json
