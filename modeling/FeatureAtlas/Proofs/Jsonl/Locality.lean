import FeatureAtlas.Proofs.Jsonl.Contributions
import FeatureAtlas.Proofs.Jsonl.RoundTrip

/-!
# Reading is local to lines

A reader goes through its data line by line and remembers nothing of a line
but its number.  So what follows on ended data is read as if it stood alone,
with its line numbers moved; whoever skips lines gets what the others
contribute; and what one line contributes does not depend on any other line,
however damaged that one is.
-/

namespace FeatureAtlas.Jsonl

open Json (Reader)

/-! ## Line numbers -/

/-- The warning of a line that stands so many lines further down. -/
def Warning.below (count : Nat) : Warning → Warning
  | .malformed line problem => .malformed (line + count) problem
  | .notText line => .notText (line + count)

/-- What lines yield that stand so many lines further down. -/
def Reading.below {α : Type} (count : Nat) (reading : Reading α) : Reading α :=
  ⟨reading.records, reading.warnings.map (·.below count)⟩

section Reader

variable {α : Type} (reader : Reader α)

/-- A warning tells the number of its line, counted from one. -/
theorem line_of_warning?
    {entry : Bytes × Nat} {warning : Warning}
    (warned : warning? reader entry = some warning) :
    warning.line = entry.2 + 1 := by
  rcases entry with ⟨line, index⟩
  rw [warning?] at warned
  split at warned
  · rw [← Option.some.inj warned]
    rfl
  · split at warned
    · cases warned
    · split at warned
      · cases warned
      · rw [← Option.some.inj warned]
        rfl

/-- A line that stands further down gives the same warning with another number. -/
theorem warning?_below (count : Nat) (line : Bytes) (index : Nat) :
    warning? reader (line, index + count) =
      (warning? reader (line, index)).map (·.below count) := by
  simp only [warning?, Nat.add_right_comm index count 1]
  split
  · rfl
  · split
    · rfl
    · split <;> rfl

theorem ofLines_below (count : Nat) (lines : List Bytes) :
    Reading.ofLines reader count lines =
      (Reading.ofLines reader 0 lines).below count := by
  have numbers :
      lines.zipIdx.map (Prod.map id (· + count)) = lines.zipIdx count :=
    List.map_snd_add_zipIdx_eq_zipIdx
  have moved :
      warning? reader ∘ Prod.map id (· + count) =
        fun entry => (warning? reader entry).map (·.below count) :=
    funext fun entry => warning?_below reader count entry.1 entry.2
  rw [ofLines_eq, ofLines_eq, Reading.below, ← numbers, List.filterMap_map,
    moved, List.map_filterMap]

theorem ofLines_append (count : Nat) (first second : List Bytes) :
    Reading.ofLines reader count (first ++ second) =
      (Reading.ofLines reader count first).append
        (Reading.ofLines reader (count + first.length) second) := by
  simp only [ofLines_eq, Reading.append, List.filterMap_append,
    List.zipIdx_append]

/-! ## Skipping lines -/

/-- Reading on takes the next line and then reads on behind it. -/
theorem Cursor.read_of_next (cursor : Cursor) :
    cursor.read reader =
      match cursor.next with
      | (none, _) => .empty
      | (some line, behind) =>
          (Reading.ofLine reader behind.lineNumber line).append
            (behind.read reader) := by
  rcases cursor with ⟨remaining, lineNumber⟩
  cases remaining with
  | nil => rfl
  | cons byte rest =>
      rw [Cursor.read, lines, rawLines_cons]
      rfl

/-- One step takes the first of the numbered lines. -/
theorem Cursor.zipIdx_next (cursor : Cursor) :
    (lines cursor.next.2.remaining).zipIdx cursor.next.2.lineNumber =
      ((lines cursor.remaining).zipIdx cursor.lineNumber).tail := by
  rw [cursor.next_eq.2, List.tail_zipIdx]
  rcases cursor with ⟨remaining, lineNumber⟩
  cases remaining with
  | nil => rfl
  | cons byte rest => rfl

/-- Behind skipped lines the others are read, under the numbers that they have among all. -/
theorem Cursor.read_skip (cursor : Cursor) (count : Nat) :
    (cursor.skip count).read reader =
      ⟨((lines cursor.remaining).drop count).filterMap (record? reader),
        (((lines cursor.remaining).zipIdx cursor.lineNumber).drop
          count).filterMap (warning? reader)⟩ := by
  induction count generalizing cursor with
  | zero => exact ofLines_eq reader _ _
  | succ count induction =>
      rw [Cursor.skip, induction, cursor.zipIdx_next, cursor.next_eq.2,
        List.drop_tail, List.drop_tail]

/-- The warnings of the lines behind skipped ones have ascending numbers. -/
theorem pairwise_warnings (data : Bytes) (count : Nat) :
    (((Cursor.start data).skip count).read reader).warnings.Pairwise
      fun left right => left.line < right.line := by
  have ordered :
      (lines data).zipIdx.Pairwise fun left right => left.2 < right.2 := by
    apply List.pairwise_map.mp
    rw [List.zipIdx_map_snd]
    exact List.pairwise_lt_range'
  rw [Cursor.read_skip, List.pairwise_filterMap]
  refine (ordered.drop (i := count)).imp ?_
  intro left right before first warned second later
  rw [line_of_warning? reader warned, line_of_warning? reader later]
  exact Nat.succ_lt_succ before

/-! ## Data behind ended data -/

theorem rawLines_ne_nil {data : Bytes} (inhabited : data ≠ []) :
    rawLines data ≠ [] := by
  cases data with
  | nil => exact absurd rfl inhabited
  | cons byte rest =>
      rw [rawLines_cons]
      exact List.cons_ne_nil _ _

/-- What stands behind a line feed is cut into lines of its own. -/
theorem rawLines_append_lineFeed (front rest : Bytes) :
    rawLines (front ++ lineFeed :: rest) =
      rawLines (front ++ [lineFeed]) ++ rawLines rest := by
  induction front with
  | nil => rfl
  | cons byte front induction =>
      rw [List.cons_append, List.cons_append, rawLines, rawLines, induction]
      by_cases ends : byte = lineFeed
      · rw [if_pos ends, if_pos ends, List.cons_append]
      · rw [if_neg ends, if_neg ends]
        have some : rawLines (front ++ [lineFeed]) ≠ [] :=
          rawLines_ne_nil (by simp)
        cases cut : rawLines (front ++ [lineFeed]) with
        | nil => exact absurd cut some
        | cons line others => rfl

/-- Data that is empty or whose last line is ended. -/
def Ended (data : Bytes) : Prop :=
  data = [] ∨ data.getLast? = some lineFeed

theorem lines_append_of_ended {first : Bytes} (ended : Ended first) (second : Bytes) :
    lines (first ++ second) = lines first ++ lines second := by
  rcases ended with rfl | last
  · rfl
  · rcases List.getLast?_eq_some_iff.mp last with ⟨front, rfl⟩
    rw [lines, List.append_assoc, List.singleton_append,
      rawLines_append_lineFeed, List.map_append]
    rfl

/-- Data behind ended data is read as if it stood alone, with its numbers moved. -/
theorem read_append {first : Bytes} (ended : Ended first) (second : Bytes) :
    read reader (first ++ second) =
      (read reader first).append
        ((read reader second).below (lines first).length) := by
  have joined := ofLines_append reader 0 (lines first) (lines second)
  rw [Nat.zero_add, ofLines_below reader (lines first).length] at joined
  rw [← lines_append_of_ended ended] at joined
  exact joined

theorem lines_of_unbroken {line : Bytes} (unbroken : lineFeed ∉ line) :
    lines (line ++ [lineFeed]) = [dropReturn line] := by
  rw [lines, rawLines_append unbroken]
  rfl

/-- Between other lines a line contributes what it does alone, and changes no other one. -/
theorem read_between
    {first line : Bytes} (ended : Ended first) (unbroken : lineFeed ∉ line)
    (second : Bytes) :
    read reader (first ++ line ++ lineFeed :: second) =
      (read reader first).append
        ((Reading.ofLine reader ((lines first).length + 1)
            (dropReturn line)).append
          ((read reader second).below ((lines first).length + 1))) := by
  have whole : Ended (line ++ [lineFeed]) := Or.inr (by simp)
  have parts :
      lines (first ++ line ++ lineFeed :: second) =
        lines first ++ (dropReturn line :: lines second) := by
    rw [List.append_assoc, lines_append_of_ended ended, List.append_cons,
      lines_append_of_ended whole, lines_of_unbroken unbroken]
    rfl
  have joined :=
    ofLines_append reader 0 (lines first) (dropReturn line :: lines second)
  rw [Nat.zero_add, Reading.ofLines,
    ofLines_below reader ((lines first).length + 1), ← parts] at joined
  exact joined

end Reader

/-! ## Readings as a whole -/

/-- What each line yields is a matter of the line and its number alone. -/
structure LocalToLines {α : Type} (reader : Reader α) : Prop where
  /-- Reading is taking one line after the other. -/
  stepwise :
    ∀ cursor : Cursor,
      cursor.read reader =
        match cursor.next with
        | (none, _) => .empty
        | (some line, behind) =>
            (Reading.ofLine reader behind.lineNumber line).append
              (behind.read reader)
  joined :
    ∀ first second,
      Ended first →
        read reader (first ++ second) =
          (read reader first).append
            ((read reader second).below (lines first).length)
  /-- After some steps exactly the lines are read that these have left. -/
  resumed :
    ∀ data count,
      ((Cursor.start data).skip count).read reader =
        ⟨((lines data).drop count).filterMap (record? reader),
          ((lines data).zipIdx.drop count).filterMap (warning? reader)⟩
  /-- Whatever stands in one line, the others yield the same. -/
  undisturbed :
    ∀ first line second,
      Ended first → lineFeed ∉ line →
        read reader (first ++ line ++ lineFeed :: second) =
          (read reader first).append
            ((Reading.ofLine reader ((lines first).length + 1)
                (dropReturn line)).append
              ((read reader second).below ((lines first).length + 1)))
  ascending :
    ∀ data count,
      (((Cursor.start data).skip count).read reader).warnings.Pairwise
        fun left right => left.line < right.line

/-- Records of any kind are read line by line from any bytes. -/
theorem reading_local_to_lines {α : Type} (reader : Reader α) :
    LocalToLines reader where
  stepwise := Cursor.read_of_next reader
  joined := fun _ second ended => read_append reader ended second
  resumed := fun data => (Cursor.start data).read_skip reader
  undisturbed := fun _ _ second ended unbroken =>
    read_between reader ended unbroken second
  ascending := pairwise_warnings reader

/-- A line that is no text, and a blank one. -/
def spoiled : Bytes :=
  [0xFF, lineFeed, 0x20, carriageReturn, lineFeed]

/-- Behind spoiled lines and one that is no JSON, an unfinished text is read as it is. -/
theorem reading_local_to_lines_of_spoiled :
    Ended spoiled ∧ lineFeed ∉ [0x78, carriageReturn] ∧
      read Json.readText
          (spoiled ++ [0x78, carriageReturn] ++
            lineFeed :: [0x22, 0x61, 0x22]) =
        ⟨["a"], [.notText 1, .malformed 3 .expectedValue]⟩ := by
  have ended : Ended spoiled := Or.inr rfl
  have unbroken : lineFeed ∉ [0x78, carriageReturn] := by decide
  refine ⟨ended, unbroken, ?_⟩
  exact
    ((reading_local_to_lines Json.readText).undisturbed _ _ _ ended
      unbroken).trans (by decide +kernel)

end FeatureAtlas.Jsonl
