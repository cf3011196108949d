import FeatureAtlas.Jsonl.Reading
import FeatureAtlas.Jsonl.Writing
import FeatureAtlas.Proofs.Encoding.Records
import FeatureAtlas.Proofs.Json.Printable

/-!
# Reading the lines that were written

The content of a file holds a line for each record.  A printed value has no
byte that ends a line or that could be taken for a part of its end, so the
lines that are read are the printed values; none of them is blank, and each of
them yields its record without a warning.
-/

namespace FeatureAtlas.Jsonl

open Json (Printable Problem Reader Value)

/-! ## Lines -/

theorem cut_append
    {line : Bytes} (unbroken : lineFeed ∉ line) (rest : Bytes) :
    cut (line ++ lineFeed :: rest) = (line, rest) := by
  induction line with
  | nil => rfl
  | cons byte line induction =>
      rw [List.mem_cons, not_or] at unbroken
      rw [List.cons_append, cut, if_neg (Ne.symm unbroken.1),
        induction unbroken.2]

theorem rawLines_append
    {line : Bytes} (unbroken : lineFeed ∉ line) (rest : Bytes) :
    rawLines (line ++ lineFeed :: rest) = line :: rawLines rest := by
  have whole := cut_append unbroken rest
  cases line with
  | nil => rfl
  | cons byte line =>
      rw [List.cons_append] at whole ⊢
      rw [rawLines_cons, whole]

theorem dropReturn_eq_self
    {line : Bytes} (clean : carriageReturn ∉ line) :
    dropReturn line = line := by
  induction line with
  | nil => rfl
  | cons byte line induction =>
      rw [List.mem_cons, not_or] at clean
      have other : ¬(line.isEmpty ∧ byte = carriageReturn) :=
        fun last => clean.1 last.2.symm
      rw [dropReturn, if_neg other, induction clean.2]

/-- A printed value is a line of its own. -/
theorem lines_lineOf_append
    {value : Value} (printable : Printable value.written) (rest : Bytes) :
    lines (lineOf value ++ rest) =
      Utf8.encode value.written :: lines rest := by
  have unbroken : lineFeed ∉ Utf8.encode value.written := by
    intro member
    exact absurd (printable.le_toNat member) (by decide)
  have clean : carriageReturn ∉ Utf8.encode value.written := by
    intro member
    exact absurd (printable.le_toNat member) (by decide)
  rw [lineOf, List.append_assoc, List.singleton_append, lines,
    rawLines_append unbroken, List.map_cons, dropReturn_eq_self clean]
  rfl

/-! ## Records -/

/-- A value stands for a record that a reader takes from a line. -/
structure StandsFor
    {α : Type} (reader : Reader α) (value : Value) (record : α) : Prop where
  printable : Printable value.written
  visible : Text.allWhiteSpace value.written = false
  takes : reader.Takes value.written record

section Records

variable {α : Type} {reader : Reader α}

/-- The line of a record yields the record and nothing else. -/
theorem ofLine_written
    {value : Value} {record : α} (stands : StandsFor reader value record)
    (number : Nat) :
    Reading.ofLine reader number (Utf8.encode value.written) =
      ⟨[record], []⟩ := by
  rw [Reading.ofLine]
  simp only [Utf8.decode?_encode, stands.visible,
    Json.readDocument_of_takes stands.takes, Bool.false_eq_true, if_false]

theorem ofLines_written
    {records : List α} {form : α → Value}
    (stand : ∀ record ∈ records, StandsFor reader (form record) record)
    (count : Nat) :
    Reading.ofLines reader count
        (lines (records.flatMap fun record => lineOf (form record))) =
      ⟨records, []⟩ := by
  induction records generalizing count with
  | nil => rfl
  | cons record records induction =>
      rcases List.forall_mem_cons.mp stand with ⟨here, others⟩
      rw [List.flatMap_cons, lines_lineOf_append here.printable,
        Reading.ofLines, ofLine_written here, induction others]
      rfl

theorem content_written
    (records : List α) (form : α → Value) :
    content (records.map fun record => .ok (form record)) =
      .ok (records.flatMap fun record => lineOf (form record)) := by
  induction records with
  | nil => rfl
  | cons record records induction =>
      rw [List.map_cons, content, induction]
      rfl

/-- Reading the content of a file gives back the records, without a warning. -/
theorem read_written
    {records : List α} {form : α → Value}
    (stand : ∀ record ∈ records, StandsFor reader (form record) record) :
    read reader (records.flatMap fun record => lineOf (form record)) =
      ⟨records, []⟩ :=
  ofLines_written stand 0

end Records

/-! ## Records of another kind -/

section Refused

variable {α β : Type} {reader : Reader α} {own : Reader β} {problem : Problem}

/-- The line of a record that the reader refuses yields a warning and nothing else. -/
theorem ofLine_refused
    {value : Value} {record : β} (stands : StandsFor own value record)
    (refuses : reader.Refuses value.written problem) (number : Nat) :
    Reading.ofLine reader number (Utf8.encode value.written) =
      ⟨[], [.malformed number problem]⟩ := by
  rw [Reading.ofLine]
  simp only [Utf8.decode?_encode, stands.visible,
    Json.readDocument_of_refuses refuses, Bool.false_eq_true, if_false]

variable {records : List β} {form : β → Value}

theorem records_ofLines_refused
    (stand : ∀ record ∈ records, StandsFor own (form record) record)
    (refuses :
      ∀ record ∈ records, reader.Refuses (form record).written problem)
    (count : Nat) :
    (Reading.ofLines reader count
      (lines
        (records.flatMap fun record => lineOf (form record)))).records =
      [] := by
  induction records generalizing count with
  | nil => rfl
  | cons record records induction =>
      rcases List.forall_mem_cons.mp stand with ⟨here, others⟩
      rcases List.forall_mem_cons.mp refuses with ⟨refused, further⟩
      rw [List.flatMap_cons, lines_lineOf_append here.printable,
        Reading.ofLines, ofLine_refused here refused]
      exact induction others further _

/-- No records are read from the content of a file of another kind. -/
theorem records_read_refused
    (stand : ∀ record ∈ records, StandsFor own (form record) record)
    (refuses :
      ∀ record ∈ records, reader.Refuses (form record).written problem) :
    (read reader
      (records.flatMap fun record => lineOf (form record))).records = [] :=
  records_ofLines_refused stand refuses 0

end Refused

end FeatureAtlas.Jsonl

namespace FeatureAtlas

/-! ## The lines of a store -/

theorem Feature.standsFor (feature : Feature) :
    Jsonl.StandsFor reader feature.toValue feature := by
  refine ⟨Json.printable_object ?_, rfl, feature.reader_takes⟩
  intro entry member
  simp only [FeatureId.members, List.cons_append, List.nil_append,
    List.mem_cons, List.not_mem_nil, or_false] at member
  rcases member with rfl | rfl | rfl | rfl | rfl
  · exact Json.printable_quoted _
  · exact Json.printable_quoted _
  · exact Json.printable_quoted _
  · exact Json.printable_quoted _
  · exact Json.printable_texts _

theorem InvocationRecord.standsFor (record : InvocationRecord) :
    Jsonl.StandsFor reader record.toValue record := by
  refine ⟨Json.printable_object ?_, rfl, record.reader_takes⟩
  intro entry member
  simp only [List.mem_cons, List.not_mem_nil, or_false] at member
  rcases member with rfl | rfl | rfl | rfl
  · exact Json.printable_quoted _
  · exact Json.printable_quoted _
  · exact Json.printable_quoted _
  · exact Json.printable_texts _

end FeatureAtlas
