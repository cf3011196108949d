import FeatureAtlas.Jsonl.Reading

/-!
# What each line contributes

A line contributes a record, a warning with its number, or nothing; nothing if
and only if it is blank.  What is read is what the lines contribute, in their
order, so no line goes missing: those that are not blank are as many as the
records and the warnings together.
-/

namespace FeatureAtlas.Jsonl

open Json (Reader readDocument)

/-- Whether a line is text and holds nothing but white space. -/
def isBlankLine (line : Bytes) : Bool :=
  match Utf8.decode? line with
  | some characters => Text.allWhiteSpace characters
  | none => false

section Lines

variable {α : Type} (reader : Reader α)

/-- The record of a line, if it is text, is not blank and can be decoded. -/
def record? (line : Bytes) : Option α :=
  if (Utf8.decode? line).isNone then none
  else if isBlankLine line then none
  else (readDocument reader line).toOption

/--
The warning of a line, which has an index: it is no text, or it is not blank
and cannot be decoded.
-/
def warning? (entry : Bytes × Nat) : Option Warning :=
  let (line, index) := entry
  if (Utf8.decode? line).isNone then some (.notText (index + 1))
  else if isBlankLine line then none
  else
    match readDocument reader line with
    | .ok _ => none
    | .error problem => some (.malformed (index + 1) problem)

/-- The records of the lines that can be decoded. -/
def decoded (data : Bytes) : List α :=
  (lines data).filterMap (record? reader)

/-- The warnings of the lines that cannot. -/
def malformed (data : Bytes) : List Warning :=
  (lines data).zipIdx.filterMap (warning? reader)

/-- A line contributes one thing, unless it is blank. -/
theorem ofLine_cases (line : Bytes) (index : Nat) :
    (isBlankLine line = true ∧ record? reader line = none ∧
          warning? reader (line, index) = none ∧
            Reading.ofLine reader (index + 1) line = ⟨[], []⟩) ∨
      (∃ record,
        isBlankLine line = false ∧ record? reader line = some record ∧
          warning? reader (line, index) = none ∧
            Reading.ofLine reader (index + 1) line = ⟨[record], []⟩) ∨
        ∃ warning,
          isBlankLine line = false ∧ record? reader line = none ∧
            warning? reader (line, index) = some warning ∧
              Reading.ofLine reader (index + 1) line = ⟨[], [warning]⟩ := by
  cases text : Utf8.decode? line with
  | none =>
      have visible : isBlankLine line = false := by rw [isBlankLine, text]
      refine Or.inr (Or.inr ⟨.notText (index + 1), visible, ?_, ?_, ?_⟩)
      · simp [record?, text]
      · simp [warning?, text]
      · simp [Reading.ofLine, text]
  | some characters =>
      have same : isBlankLine line = Text.allWhiteSpace characters := by
        rw [isBlankLine, text]
      cases blank : Text.allWhiteSpace characters with
      | true =>
          rw [blank] at same
          refine Or.inl ⟨same, ?_, ?_, ?_⟩
          · simp [record?, same]
          · simp [warning?, text, same]
          · simp [Reading.ofLine, Reading.empty, text, blank]
      | false =>
          rw [blank] at same
          cases taken : readDocument reader line with
          | ok record =>
              refine Or.inr (Or.inl ⟨record, same, ?_, ?_, ?_⟩)
              · simp [record?, text, same, taken, Except.toOption]
              · simp [warning?, text, same, taken]
              · simp [Reading.ofLine, text, blank, taken]
          | error problem =>
              refine
                Or.inr
                  (Or.inr ⟨.malformed (index + 1) problem, same, ?_, ?_, ?_⟩)
              · simp [record?, text, same, taken, Except.toOption]
              · simp [warning?, text, same, taken]
              · simp [Reading.ofLine, text, blank, taken]

theorem ofLines_eq (lines : List Bytes) (count : Nat) :
    Reading.ofLines reader count lines =
      ⟨lines.filterMap (record? reader),
        (lines.zipIdx count).filterMap (warning? reader)⟩ := by
  induction lines generalizing count with
  | nil => rfl
  | cons line rest induction =>
      rw [Reading.ofLines, induction, List.zipIdx_cons]
      rcases ofLine_cases reader line count with
        ⟨-, nothing, silent, here⟩ | ⟨record, -, found, silent, here⟩ |
          ⟨warning, -, nothing, warned, here⟩
      · rw [here, List.filterMap_cons_none nothing,
          List.filterMap_cons_none silent]
        rfl
      · rw [here, List.filterMap_cons_some found,
          List.filterMap_cons_none silent]
        rfl
      · rw [here, List.filterMap_cons_none nothing,
          List.filterMap_cons_some warned]
        rfl

/-- What is read is what the lines contribute. -/
theorem read_eq (data : Bytes) :
    read reader data = ⟨decoded reader data, malformed reader data⟩ :=
  ofLines_eq reader (lines data) 0

/-- Lines that are not blank are as many as what they contribute. -/
theorem length_ofLines (lines : List Bytes) (count : Nat) :
    (lines.filter (!isBlankLine ·)).length =
      (Reading.ofLines reader count lines).records.length +
        (Reading.ofLines reader count lines).warnings.length := by
  induction lines generalizing count with
  | nil => rfl
  | cons line rest induction =>
      rw [Reading.ofLines, Reading.append, List.length_append,
        List.length_append, Nat.add_add_add_comm, ← induction]
      rcases ofLine_cases reader line count with
        ⟨blank, -, -, here⟩ | ⟨record, visible, -, -, here⟩ |
          ⟨warning, visible, -, -, here⟩
      · rw [here, List.filter_cons_of_neg (by simp [blank])]
        exact (Nat.zero_add _).symm
      · rw [here, List.filter_cons_of_pos (by simp [visible])]
        exact Nat.add_comm _ 1
      · rw [here, List.filter_cons_of_pos (by simp [visible])]
        exact Nat.add_comm _ 1

/-- No line that is not blank goes missing. -/
theorem length_visible (data : Bytes) :
    ((lines data).filter (!isBlankLine ·)).length =
      (decoded reader data).length + (malformed reader data).length := by
  have counted := length_ofLines reader (lines data) 0
  rw [ofLines_eq] at counted
  exact counted

end Lines

end FeatureAtlas.Jsonl
