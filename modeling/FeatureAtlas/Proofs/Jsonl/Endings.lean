import FeatureAtlas.Proofs.Jsonl.RoundTrip

/-!
# Endings of lines

A line may end in a line feed, with a carriage return before it or without,
and a last line that has a byte may end with the data.  However the endings
are chosen, one line after the other comes back as it was and under its
number; then there is none any more, and the count stays.  So what is read
does not depend on the endings.
-/

namespace FeatureAtlas.Jsonl

open Json (Reader)

/-- What may stand at the end of a line. -/
inductive Ending
  | feed
  | returnAndFeed
deriving DecidableEq, Repr

def Ending.bytes : Ending → Bytes
  | .feed => [lineFeed]
  | .returnAndFeed => [carriageReturn, lineFeed]

/-- Lines in a file, each with the ending behind it. -/
structure Spelling where
  ended : List (Bytes × Ending)
  /-- What stands behind the last ending; if it has a byte it is a line of its own. -/
  unended : Bytes
deriving DecidableEq, Repr

namespace Spelling

def lines (spelling : Spelling) : List Bytes :=
  spelling.ended.map (·.1) ++
    if spelling.unended.isEmpty then [] else [spelling.unended]

def data (spelling : Spelling) : Bytes :=
  (spelling.ended.flatMap fun entry => entry.1 ++ entry.2.bytes) ++
    spelling.unended

end Spelling

/-- Bytes that no ending can be taken from: none of them ends a line or is about to. -/
structure Plain (line : Bytes) : Prop where
  unbroken : lineFeed ∉ line
  unreturned : line.getLast? ≠ some carriageReturn

instance (line : Bytes) : Decidable (Plain line) :=
  decidable_of_iff
    (lineFeed ∉ line ∧ line.getLast? ≠ some carriageReturn)
    ⟨fun ⟨unbroken, unreturned⟩ => ⟨unbroken, unreturned⟩,
      fun plain => ⟨plain.unbroken, plain.unreturned⟩⟩

/-! ## Lines and their endings -/

/-- A carriage return behind a line is dropped, and no other byte. -/
theorem dropReturn_concat (line : Bytes) :
    dropReturn (line ++ [carriageReturn]) = line := by
  induction line with
  | nil => rfl
  | cons byte line induction =>
      have more : (line ++ [carriageReturn]).isEmpty = false := by simp
      rw [List.cons_append, dropReturn, more, induction, if_neg (by simp)]

theorem Plain.dropReturn_eq {line : Bytes} (plain : Plain line) :
    dropReturn line = line := by
  obtain ⟨-, unreturned⟩ := plain
  induction line with
  | nil => rfl
  | cons byte line induction =>
      cases line with
      | nil =>
          have other : byte ≠ carriageReturn := by simpa using unreturned
          rw [dropReturn, if_neg (by simp [other])]
          rfl
      | cons next line =>
          rw [dropReturn, if_neg (by simp), induction (by simpa using unreturned)]

theorem rawLines_unended
    {line : Bytes} (unbroken : lineFeed ∉ line) (inhabited : line ≠ []) :
    rawLines line = [line] := by
  induction line with
  | nil => exact absurd rfl inhabited
  | cons byte line induction =>
      rw [List.mem_cons, not_or] at unbroken
      rw [rawLines, if_neg (Ne.symm unbroken.1)]
      cases line with
      | nil => rfl
      | cons next line => rw [induction unbroken.2 (by simp)]

/-- An ended line is the first one, whatever its ending. -/
theorem Plain.lines_append
    {line : Bytes} (plain : Plain line) (ending : Ending) (rest : Bytes) :
    Jsonl.lines (line ++ ending.bytes ++ rest) =
      line :: Jsonl.lines rest := by
  cases ending with
  | feed =>
      rw [Ending.bytes, List.append_assoc, List.singleton_append,
        Jsonl.lines, rawLines_append plain.unbroken, List.map_cons,
        plain.dropReturn_eq]
      rfl
  | returnAndFeed =>
      have unbroken : lineFeed ∉ line ++ [carriageReturn] := by
        rw [List.mem_append, not_or]
        exact ⟨plain.unbroken, by decide⟩
      rw [Ending.bytes, List.append_assoc, List.cons_append,
        List.singleton_append, List.append_cons, Jsonl.lines,
        rawLines_append unbroken, List.map_cons, dropReturn_concat]
      rfl

/-- The lines of a spelling are found in its data. -/
theorem Spelling.lines_data
    {spelling : Spelling} (plain : ∀ line ∈ spelling.lines, Plain line) :
    Jsonl.lines spelling.data = spelling.lines := by
  obtain ⟨ended, unended⟩ := spelling
  induction ended with
  | nil =>
      by_cases empty : unended = []
      · subst empty
        rfl
      · have listed : unended ∈ Spelling.lines ⟨[], unended⟩ := by
          simp [Spelling.lines, empty]
        have last := plain unended listed
        rw [Spelling.data, List.flatMap_nil, List.nil_append, Jsonl.lines,
          rawLines_unended last.unbroken empty, List.map_singleton,
          last.dropReturn_eq]
        simp [Spelling.lines, empty]
  | cons entry ended induction =>
      have first : Plain entry.1 := plain _ (by simp [Spelling.lines])
      have others : ∀ line ∈ Spelling.lines ⟨ended, unended⟩, Plain line := by
        intro line member
        refine plain line ?_
        rw [Spelling.lines, List.map_cons, List.cons_append]
        exact List.mem_cons_of_mem _ member
      have split :
          Spelling.data ⟨entry :: ended, unended⟩ =
            entry.1 ++ entry.2.bytes ++ Spelling.data ⟨ended, unended⟩ := by
        simp [Spelling.data]
      rw [split, first.lines_append, induction others]
      rfl

/-! ## One step after the other -/

namespace Cursor

/-- What so many steps give: each time the next line under its number, or nothing. -/
def answers : Nat → Cursor → List (Option (Nat × Bytes))
  | 0, _ => []
  | count + 1, cursor =>
    (cursor.next.1.map (cursor.next.2.lineNumber, ·)) ::
      answers count cursor.next.2

theorem remaining_eq_nil
    {cursor : Cursor} (done : lines cursor.remaining = []) :
    cursor.remaining = [] := by
  rcases cursor with ⟨remaining, lineNumber⟩
  cases remaining with
  | nil => rfl
  | cons byte rest =>
      rw [lines, rawLines_cons] at done
      cases done

theorem next_of_done {cursor : Cursor} (done : lines cursor.remaining = []) :
    cursor.next = (none, cursor) := by
  rw [next, remaining_eq_nil done]
  rfl

theorem next_of_lines
    {cursor : Cursor} {line : Bytes} {others : List Bytes}
    (split : lines cursor.remaining = line :: others) :
    cursor.next.1 = some line ∧ lines cursor.next.2.remaining = others ∧
      cursor.next.2.lineNumber = cursor.lineNumber + 1 := by
  refine ⟨?_, ?_, ?_⟩
  · rw [cursor.next_eq.1, split, List.head?_cons]
  · rw [cursor.next_eq.2, split, List.tail_cons]
  · rcases cursor with ⟨remaining, lineNumber⟩
    cases remaining with
    | nil => cases split
    | cons byte rest => rfl

theorem answers_of_done
    {cursor : Cursor} (done : lines cursor.remaining = []) (count : Nat) :
    cursor.answers count = List.replicate count none := by
  induction count with
  | zero => rfl
  | succ count induction =>
      rw [answers, next_of_done done, induction, List.replicate_succ]
      rfl

/-- Steps give the lines that remain under their numbers, and nothing behind them. -/
theorem answers_eq
    {cursor : Cursor} {others : List Bytes}
    (split : lines cursor.remaining = others) (more : Nat) :
    cursor.answers (others.length + more) =
      ((others.zipIdx (cursor.lineNumber + 1)).map
          fun (line, number) => some (number, line)) ++
        List.replicate more none := by
  induction others generalizing cursor with
  | nil => simpa using answers_of_done split more
  | cons line others induction =>
      obtain ⟨found, behind, counted⟩ := next_of_lines split
      have rest := induction behind
      rw [counted] at rest
      rw [List.length_cons, Nat.add_right_comm, answers, found, counted, rest]
      rfl

/-- The count goes up with every line, and stays where no line is left. -/
theorem lineNumber_skip
    {cursor : Cursor} {others : List Bytes}
    (split : lines cursor.remaining = others) (count : Nat) :
    (cursor.skip count).lineNumber =
      cursor.lineNumber + min count others.length := by
  induction count generalizing cursor others with
  | zero => simp [skip]
  | succ count induction =>
      rw [skip]
      cases others with
      | nil =>
          rw [next_of_done split, induction split]
          simp
      | cons line others =>
          obtain ⟨-, behind, counted⟩ := next_of_lines split
          rw [induction behind, counted, List.length_cons,
            Nat.add_min_add_right]
          omega

end Cursor

/-- Data is gone through line by line. -/
structure GoesThrough (data : Bytes) (lines : List Bytes) : Prop where
  /-- The lines come in their order under the numbers from one; then nothing comes. -/
  answers :
    ∀ more,
      (Cursor.start data).answers (lines.length + more) =
        ((lines.zipIdx 1).map fun (line, number) => some (number, line)) ++
          List.replicate more none
  counted :
    ∀ steps,
      ((Cursor.start data).skip steps).lineNumber = min steps lines.length

/--
Whatever the endings of lines, these are gone through one by one, and what is
read of them is the same.
-/
theorem endings_do_not_matter
    (spelling : Spelling) (plain : ∀ line ∈ spelling.lines, Plain line) :
    GoesThrough spelling.data spelling.lines ∧
      ∀ other : Spelling, other.lines = spelling.lines →
        ∀ {α : Type} (reader : Reader α),
          read reader other.data = read reader spelling.data := by
  have found := Spelling.lines_data plain
  refine ⟨⟨?answers, ?counted⟩, ?same⟩
  case answers =>
    exact Cursor.answers_eq found
  case counted =>
    intro steps
    rw [Cursor.lineNumber_skip found]
    exact Nat.zero_add _
  case same =>
    intro other alike α reader
    have there : ∀ line ∈ other.lines, Plain line := alike ▸ plain
    have together : lines other.data = lines spelling.data := by
      rw [Spelling.lines_data there, alike, found]
    rw [read, read, Cursor.read, Cursor.read, Cursor.start, Cursor.start,
      together]

/-- A line with a carriage return inside, an empty one, one that is no text, and an unended one. -/
def mixedSpelling : Spelling where
  ended :=
    [([0x61, carriageReturn, 0x62], .returnAndFeed), ([], .feed),
      ([0xFF], .returnAndFeed)]
  unended := [0x22, 0x78, 0x22]

/-- The same lines, each ended by a line feed alone. -/
def feedSpelling : Spelling where
  ended := mixedSpelling.lines.map (·, .feed)
  unended := []

theorem endings_do_not_matter_of_mixed :
    (∀ line ∈ mixedSpelling.lines, Plain line) ∧
      feedSpelling.lines = mixedSpelling.lines ∧
        feedSpelling.data ≠ mixedSpelling.data ∧
          (Cursor.start mixedSpelling.data).answers 6 =
              [some (1, [0x61, 0x0D, 0x62]), some (2, []), some (3, [0xFF]),
                some (4, [0x22, 0x78, 0x22]), none, none] ∧
            read Json.readText feedSpelling.data =
              read Json.readText mixedSpelling.data := by
  have plain : ∀ line ∈ mixedSpelling.lines, Plain line := by decide
  have alike : feedSpelling.lines = mixedSpelling.lines := by decide
  obtain ⟨goes, same⟩ := endings_do_not_matter mixedSpelling plain
  exact
    ⟨plain, alike, by decide, goes.answers 2, same _ alike Json.readText⟩

end FeatureAtlas.Jsonl
