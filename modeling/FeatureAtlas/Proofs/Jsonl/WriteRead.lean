import FeatureAtlas.Proofs.Disk.Temporary
import FeatureAtlas.Proofs.Jsonl.RoundTrip

/-!
# Writing records and reading them

Records of any kind whose values stand for them can be written to a writable
path.  The file then has one line for each record, ended by the only line feed
in it; reading the file gives the records back in their order and no warning,
and whoever goes through it line by line counts the records.
-/

namespace FeatureAtlas.Jsonl

open Json (Reader Value)

/-- What writing records to a path leaves there, and what is read from it. -/
structure ReadsBack
    {α : Type} (reader : Reader α) (form : α → Value)
    (disk : Disk) (path : String) (records : List α)
    (written : Disk) (data : Bytes) : Prop where
  done :
    replace disk path (records.map fun record => .ok (form record)) =
      (.ok (), written)
  holds : written.read path = .ok data
  /-- Each record has a line of its own, and the line is ended. -/
  ended : data = records.flatMap fun record => lineOf (form record)
  unbroken :
    ∀ record ∈ records, lineFeed ∉ Utf8.encode (form record).written
  reads : readFrom written path reader = .ok ⟨records, []⟩
  /-- One step takes one line, and after all of them nothing remains. -/
  counted :
    ∀ earlier later,
      records = earlier ++ later →
        Cursor.skip earlier.length (.start data) =
          ⟨later.flatMap fun record => lineOf (form record), earlier.length⟩

section Records

variable {α : Type} {reader : Reader α} {form : α → Value}

/-- One step goes behind the line of a record. -/
theorem next_lineOf_append
    {value : Value} (unbroken : lineFeed ∉ Utf8.encode value.written)
    (rest : Bytes) (count : Nat) :
    (Cursor.next ⟨lineOf value ++ rest, count⟩).2 = ⟨rest, count + 1⟩ := by
  have taken : cut (lineOf value ++ rest) = (Utf8.encode value.written, rest) := by
    rw [lineOf, List.append_assoc, List.singleton_append]
    exact cut_append unbroken rest
  have inhabited : (lineOf value ++ rest).isEmpty = false := by
    simp [lineOf]
  rw [Cursor.next, inhabited, if_neg Bool.false_ne_true, taken]

/-- As many steps as there are records go behind their lines. -/
theorem skip_lines
    {records : List α}
    (unbroken :
      ∀ record ∈ records, lineFeed ∉ Utf8.encode (form record).written)
    (rest : Bytes) (count : Nat) :
    Cursor.skip records.length
        ⟨(records.flatMap fun record => lineOf (form record)) ++ rest,
          count⟩ =
      ⟨rest, count + records.length⟩ := by
  induction records generalizing count with
  | nil => rfl
  | cons record records induction =>
      rcases List.forall_mem_cons.mp unbroken with ⟨here, others⟩
      rw [List.length_cons, Cursor.skip, List.flatMap_cons,
        List.append_assoc, next_lineOf_append here, induction others,
        Nat.add_assoc, Nat.add_comm 1]

/-- Records that values stand for are read back from a writable path. -/
theorem exists_readsBack
    {disk : Disk} {path : String} (writable : disk.Writable path)
    {records : List α}
    (stand : ∀ record ∈ records, StandsFor reader (form record) record) :
    ∃ written data,
      ReadsBack reader form disk path records written data := by
  have formed := content_written records form
  rcases replace_of_writable writable formed 0 with ⟨written, done⟩
  rcases confined_of_replace done with ⟨data, same, holds, -⟩
  rw [formed, Except.ok.injEq] at same
  have unbroken :
      ∀ record ∈ records,
        lineFeed ∉ Utf8.encode (form record).written := by
    intro record member control
    have high := (stand record member).printable.le_toNat control
    exact absurd high (by decide)
  refine ⟨written, data, done, holds, same.symm, unbroken, ?reads, ?counted⟩
  case reads =>
    rw [readFrom, holds, ← same]
    simp only [read_written stand]
  case counted =>
    rintro earlier later rfl
    have skipped :=
      skip_lines
        (fun record member =>
          unbroken record (List.mem_append_left later member))
        (later.flatMap fun record => lineOf (form record)) 0
    rw [← same, List.flatMap_append, Cursor.start, skipped, Nat.zero_add]

end Records

theorem standsFor_text (text : String) :
    StandsFor Json.readText (.text text) text where
  printable := Json.printable_quoted text
  visible := rfl
  takes := Json.readText_takes text

/--
Features, ledger records and texts of any content are written to a writable
path one a line, and are read back from there.
-/
theorem replace_reads_back
    (disk : Disk) (path : String) (writable : disk.Writable path) :
    (∀ features : List Feature,
      ∃ written data,
        ReadsBack Feature.reader Feature.toValue disk path features
          written data) ∧
      (∀ records : List InvocationRecord,
        ∃ written data,
          ReadsBack InvocationRecord.reader InvocationRecord.toValue disk path
            records written data) ∧
        ∀ texts : List String,
          ∃ written data,
            ReadsBack Json.readText Value.text disk path texts written
              data := by
  refine ⟨fun features => ?_, fun records => ?_, fun texts => ?_⟩
  · exact exists_readsBack writable fun feature _ => feature.standsFor
  · exact exists_readsBack writable fun record _ => record.standsFor
  · exact exists_readsBack writable fun text _ => standsFor_text text

/-- A directory with an older file and what an interrupted writer has left beside it. -/
def staleDisk : Disk :=
  ((Disk.empty.put ["data"] .directory).put ["data", "lines.jsonl"]
      (.file [0x61])).put ["data", "lines.jsonl.tmp"] (.file [0x62])

/-- Blank texts, line breaks of all kinds and control characters are no harm. -/
def brokenTexts : List String :=
  ["", " ", "a\r\nb\n", "\u2028\x00\x1f", "\r"]

/-- The texts take the place of the older file. -/
theorem replace_reads_back_of_stale :
    staleDisk.Writable "data/lines.jsonl" ∧
      ∃ written data,
        ReadsBack Json.readText Value.text staleDisk "data/lines.jsonl"
            brokenTexts written data ∧
          data.count lineFeed = 5 ∧
            readFrom written "data/lines.jsonl" Json.readText =
              .ok ⟨brokenTexts, []⟩ := by
  have writable : staleDisk.Writable "data/lines.jsonl" :=
    ⟨by decide, ["data"], "lines.jsonl", by decide, by decide, by decide,
      by decide, by decide⟩
  obtain ⟨-, -, texts⟩ :=
    replace_reads_back staleDisk "data/lines.jsonl" writable
  obtain ⟨written, data, back⟩ := texts brokenTexts
  refine ⟨writable, written, data, back, ?_, back.reads⟩
  rw [back.ended]
  decide

end FeatureAtlas.Jsonl
