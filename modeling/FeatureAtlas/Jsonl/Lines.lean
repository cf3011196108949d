import FeatureAtlas.Text.Utf8

/-!
# Lines of bytes

A line ends in a line feed or with the data. A carriage return before the end
does not belong to the line. An unfinished last line counts if it has a byte.
-/

namespace FeatureAtlas.Jsonl

/-- The byte that ends a line. -/
def lineFeed : UInt8 := 0x0A

/-- The byte that may stand before the end of a line. -/
def carriageReturn : UInt8 := 0x0D

/-- The bytes before the first line feed and those behind it. -/
def cut : Bytes → Bytes × Bytes
  | [] => ([], [])
  | byte :: rest =>
    if byte = lineFeed then ([], rest)
    else (byte :: (cut rest).1, (cut rest).2)

/-- A line without one carriage return at its end. -/
def dropReturn : Bytes → Bytes
  | [] => []
  | byte :: rest =>
    if rest.isEmpty ∧ byte = carriageReturn then [] else byte :: dropReturn rest

/-- The lines between the line feeds, with what stands before them. -/
def rawLines : Bytes → List Bytes
  | [] => []
  | byte :: rest =>
    if byte = lineFeed then [] :: rawLines rest
    else
      match rawLines rest with
      | [] => [[byte]]
      | line :: lines => (byte :: line) :: lines

/-- The lines of a byte list. -/
def lines (data : Bytes) : List Bytes :=
  (rawLines data).map dropReturn

/-- A place between the lines of a byte list. -/
structure Cursor where
  /-- The bytes that are yet to be read. -/
  remaining : Bytes
  lineNumber : Nat
deriving DecidableEq, Repr

namespace Cursor

def start (data : Bytes) : Cursor :=
  ⟨data, 0⟩

/-- The next line, if there is one, and the place behind it. -/
def next (cursor : Cursor) : Option Bytes × Cursor :=
  if cursor.remaining.isEmpty then (none, cursor)
  else
    (some (dropReturn (cut cursor.remaining).1),
      ⟨(cut cursor.remaining).2, cursor.lineNumber + 1⟩)

/-- The place after a number of steps. -/
def skip : Nat → Cursor → Cursor
  | 0, cursor => cursor
  | count + 1, cursor => skip count cursor.next.2

end Cursor

@[simp]
theorem rawLines_nil : rawLines [] = [] := rfl

/-- Lines are cut off one after the other. -/
theorem rawLines_cons (byte : UInt8) (rest : Bytes) :
    rawLines (byte :: rest) =
      (cut (byte :: rest)).1 :: rawLines (cut (byte :: rest)).2 := by
  induction rest generalizing byte with
  | nil => by_cases ends : byte = lineFeed <;> simp [rawLines, cut, ends]
  | cons next rest hypothesis =>
    by_cases ends : byte = lineFeed
    · simp [rawLines, cut, ends]
    · rw [rawLines, if_neg ends, hypothesis next]
      simp [cut, ends]

/-- The next line is the first of the lines that remain. -/
theorem Cursor.next_eq (cursor : Cursor) :
    cursor.next.1 = (lines cursor.remaining).head? ∧
      lines cursor.next.2.remaining = (lines cursor.remaining).tail := by
  obtain ⟨remaining, lineNumber⟩ := cursor
  cases remaining with
  | nil => simp [Cursor.next, lines]
  | cons byte rest => simp [Cursor.next, lines, rawLines_cons byte rest]

end FeatureAtlas.Jsonl
