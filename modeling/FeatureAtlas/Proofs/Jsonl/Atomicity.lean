import FeatureAtlas.Proofs.Disk.Failure
import FeatureAtlas.Proofs.Disk.Names
import FeatureAtlas.Proofs.Disk.Standing
import FeatureAtlas.Proofs.Jsonl.RoundTrip

/-!
# Replacing is all or nothing

Whatever stands on a disk and whatever is to be written, a file is replaced by
all lines, or it stays as it is.  In the first case nothing stands in the place
of the temporary file.  In the second one no file does, unless all lines were
written there and could not be moved, or an older file was there that could not
be removed.  No other path notices any of them.
-/

namespace FeatureAtlas.Jsonl

open Json (Problem Value)

variable {disk after : Disk} {path name : String} {lines : List Line}
  {passed : Nat}

/-! ## Contents -/

/-- Lines have a content if each of them is a value. -/
theorem content_eq_ok_iff {bytes : Bytes} :
    content lines = .ok bytes ↔
      ∃ values : List Value,
        lines = values.map .ok ∧ bytes = values.flatMap lineOf := by
  constructor
  · intro formed
    induction lines generalizing bytes with
    | nil =>
        cases formed
        exact ⟨[], rfl, rfl⟩
    | cons line rest induction =>
        cases line with
        | error problem => cases formed
        | ok value =>
            cases further : content rest with
            | error problem =>
                rw [content, further] at formed
                cases formed
            | ok more =>
                obtain ⟨values, rfl, rfl⟩ := induction further
                rw [content, further] at formed
                cases formed
                exact ⟨value :: values, rfl, rfl⟩
  · rintro ⟨values, rfl, rfl⟩
    exact content_written values id

/-- Lines without a content begin with values, up to one that has no form. -/
theorem begun_of_formless
    {problem : Problem} (formless : content lines = .error problem) :
    ∃ (values : List Value) (rest : List Line),
      lines = values.map .ok ++ .error problem :: rest ∧
        begun lines = values.flatMap lineOf := by
  induction lines with
  | nil => cases formless
  | cons line rest induction =>
      cases line with
      | error other =>
          cases formless
          exact ⟨[], rest, rfl, rfl⟩
      | ok value =>
          cases further : content rest with
          | error other =>
              rw [content, further] at formless
              cases formless
              obtain ⟨values, behind, rfl, started⟩ := induction further
              refine ⟨value :: values, behind, rfl, ?_⟩
              rw [begun, started, List.flatMap_cons]
          | ok more =>
              rw [content, further] at formless
              cases formless

/-! ## Failures -/

/-- All lines are written beside a file, but cannot be moved to its name. -/
def MoveFails (disk : Disk) (path : String) (lines : List Line) : Prop :=
  ∃ bytes written problem,
    content lines = .ok bytes ∧
      disk.write (Path.temporary path) bytes = .ok written ∧
        written.rename (Path.temporary path) path = .error problem

/-- How a file fails to be replaced, and the disk after that. -/
inductive Failure
    (disk : Disk) (path : String) (lines : List Line) (passed : Nat) :
    Disk → Prop where
  | unwritten
      (bytes : Bytes) (problem : FileError)
      (refused : disk.write (Path.temporary path) bytes = .error problem) :
      Failure disk path lines passed (disk.discard (Path.temporary path))
  | formless
      (problem : Problem) (stopped : Disk)
      (formless : content lines = .error problem)
      (written :
        disk.write (Path.temporary path) ((begun lines).take passed) =
          .ok stopped) :
      Failure disk path lines passed (stopped.discard (Path.temporary path))
  | unmoved
      (bytes : Bytes) (problem : FileError) (filled : Disk)
      (formed : content lines = .ok bytes)
      (written : disk.write (Path.temporary path) bytes = .ok filled)
      (refused :
        filled.rename (Path.temporary path) path = .error problem) :
      Failure disk path lines passed filled

theorem failure_of_error
    {error : LinesError}
    (failed : replace disk path lines passed = (.error error, after)) :
    Failure disk path lines passed after := by
  rcases replace_eq_error failed with
    ⟨stopped, problem, fills, rfl⟩ | ⟨bytes, problem, formed, written, refused⟩
  · rcases fill_eq_error fills with
      ⟨bytes, problem, refused, rfl⟩ | ⟨problem, formless, written⟩
    · exact .unwritten bytes problem refused
    · exact .formless problem stopped formless written
  · exact .unmoved bytes problem after formed written refused

/-- Where one content cannot be written, none is there to be moved. -/
theorem not_moveFails_of_refused
    {bytes : Bytes} {problem : FileError}
    (refused : disk.write (Path.temporary path) bytes = .error problem) :
    ¬MoveFails disk path lines := by
  rintro ⟨others, written, failure, -, fills, -⟩
  obtain ⟨again, done⟩ := Disk.exists_write fills bytes
  rw [refused] at done
  cases done

section Failures

variable (failure : Failure disk path lines passed after)

include failure

/-- No file is left if the move did not fail and no older file is stuck. -/
theorem Failure.clean
    (moves : ¬MoveFails disk path lines)
    (loose : ¬disk.Stuck (Path.temporary path)) (content : Bytes) :
    after.standing? (Path.temporary path) ≠ some (.file content) := by
  cases failure with
  | unwritten bytes problem refused =>
      exact Disk.standing?_discard_ne loose content
  | formless problem stopped formless written =>
      have still := mt (Disk.stuck_iff_of_write written).mp loose
      exact Disk.standing?_discard_ne still content
  | unmoved bytes problem _ formed written refused =>
      exact absurd ⟨bytes, after, problem, formed, written, refused⟩ moves

/-- All lines are left if the move failed. -/
theorem Failure.complete (fails : MoveFails disk path lines) :
    ∃ values : List Value,
      lines = values.map .ok ∧
        after.standing? (Path.temporary path) =
          some (.file (values.flatMap lineOf)) := by
  cases failure with
  | unwritten bytes problem refused =>
      exact absurd fails (not_moveFails_of_refused refused)
  | formless problem stopped formless written =>
      obtain ⟨bytes, filled, other, formed, -⟩ := fails
      rw [formless] at formed
      cases formed
  | unmoved bytes problem _ formed written refused =>
      obtain ⟨values, whole, rfl⟩ := content_eq_ok_iff.mp formed
      have found := Disk.read_of_write written
      exact ⟨values, whole, Disk.standing?_of_read found⟩

/-- An older file that is stuck is left as it was, or with a beginning of the lines. -/
theorem Failure.stays
    (moves : ¬MoveFails disk path lines)
    (stuck : disk.Stuck (Path.temporary path)) :
    after = disk ∨
      ∃ (values : List Value) (problem : Problem) (rest : List Line),
        lines = values.map .ok ++ .error problem :: rest ∧
          after.standing? (Path.temporary path) =
            some (.file ((values.flatMap lineOf).take passed)) := by
  cases failure with
  | unwritten bytes problem refused =>
      exact Or.inl (Disk.discard_of_stuck stuck)
  | formless problem stopped formless written =>
      obtain ⟨values, rest, cut, started⟩ := begun_of_formless formless
      have still := (Disk.stuck_iff_of_write written).mpr stuck
      refine Or.inr ⟨values, problem, rest, cut, ?_⟩
      rw [Disk.discard_of_stuck still, ← started]
      exact Disk.standing?_of_read (Disk.read_of_write written)
  | unmoved bytes problem _ formed written refused =>
      exact absurd ⟨bytes, after, problem, formed, written, refused⟩ moves

end Failures

/-! ## Outcomes -/

/-- A file has been replaced by all lines, and nothing else has changed. -/
structure Replaced
    (disk : Disk) (path : String) (lines : List Line) (after : Disk) :
    Prop where
  holds :
    ∃ values : List Value,
      lines = values.map .ok ∧
        after.standing? path = some (.file (values.flatMap lineOf))
  gone : after.standing? (Path.temporary path) = none
  others :
    ∀ other,
      disk.Apart other path →
        disk.Apart other (Path.temporary path) →
          after.standing? other = disk.standing? other

/-- A file has not been replaced, and at most its temporary file is another one. -/
structure Refused
    (disk : Disk) (path : String) (lines : List Line) (passed : Nat)
    (after : Disk) : Prop where
  target : after.standing? path = disk.standing? path
  others :
    ∀ other,
      disk.Apart other (Path.temporary path) →
        after.standing? other = disk.standing? other
  clean :
    ¬MoveFails disk path lines →
      ¬disk.Stuck (Path.temporary path) →
        ∀ content,
          after.standing? (Path.temporary path) ≠ some (.file content)
  complete :
    MoveFails disk path lines →
      ∃ values : List Value,
        lines = values.map .ok ∧
          after.standing? (Path.temporary path) =
            some (.file (values.flatMap lineOf))
  stays :
    ¬MoveFails disk path lines →
      disk.Stuck (Path.temporary path) →
        after = disk ∨
          ∃ (values : List Value) (problem : Problem) (rest : List Line),
            lines = values.map .ok ++ .error problem :: rest ∧
              after.standing? (Path.temporary path) =
                some (.file ((values.flatMap lineOf).take passed))

/-- The temporary file of a path that ends in a name is another file. -/
theorem apart_temporary
    (named : Path.fileName? path = some name) (disk : Disk) :
    disk.Apart path (Path.temporary path) :=
  Disk.apart_of_fileName?_ne named (Path.fileName?_temporary named)
    (Disk.append_temporary_ne name).symm

theorem Replaced.values
    (replaced : Replaced disk path lines after) :
    ∃ values : List Value, lines = values.map .ok :=
  replaced.holds.imp fun _ => And.left

theorem replaced_of_ok
    (done : replace disk path lines passed = (.ok (), after)) :
    Replaced disk path lines after := by
  obtain ⟨bytes, formed, found, confined⟩ := confined_of_replace done
  obtain ⟨values, same, rfl⟩ := content_eq_ok_iff.mp formed
  constructor
  case holds => exact ⟨values, same, Disk.standing?_of_read found⟩
  case gone =>
    exact Disk.standing?_of_missing (read_temporary_of_replace done)
  case others =>
    intro other apart apartBeside
    apply confined.standing?_eq
    intro touched member
    rcases List.mem_pair.mp member with rfl | rfl
    · exact apartBeside
    · exact apart

theorem refused_of_error
    (named : Path.fileName? path = some name) {error : LinesError}
    (failed : replace disk path lines passed = (.error error, after)) :
    Refused disk path lines passed after := by
  have confined := confined_of_failed failed
  have failure := failure_of_error failed
  have others (other : String)
      (apart : disk.Apart other (Path.temporary path)) :
      after.standing? other = disk.standing? other := by
    apply confined.standing?_eq
    intro touched member
    rw [List.mem_singleton.mp member]
    exact apart
  constructor
  case target => exact others path (apart_temporary named disk)
  case others => exact others
  case clean => exact failure.clean
  case complete => exact failure.complete
  case stays => exact failure.stays

/-- How a file is replaced at a path that ends in a name, whatever comes of it. -/
structure ReplacesAtomically
    (disk : Disk) (path name : String) (lines : List Line) (passed : Nat) :
    Prop where
  suffixed :
    Path.fileName? (Path.temporary path) = some (name ++ ".tmp")
  beside : Path.parent? (Path.temporary path) = Path.parent? path
  unshared :
    ∀ other otherName,
      Path.fileName? other = some otherName →
        otherName ≠ name →
          Path.temporary other ≠ Path.temporary path ∧
            disk.Apart (Path.temporary other) (Path.temporary path)
  succeeds :
    (∃ after, replace disk path lines passed = (.ok (), after)) ↔
      disk.Writable path ∧ ∃ values : List Value, lines = values.map .ok
  replaced :
    ∀ after,
      replace disk path lines passed = (.ok (), after) →
        Replaced disk path lines after
  refused :
    ∀ error after,
      replace disk path lines passed = (.error error, after) →
        Refused disk path lines passed after

/-- A directory has the name of a file, and a file of an earlier attempt stands beside it. -/
def blocked : Disk where
  nodes :=
    ⟨[(["shop"], .directory), (["shop", "data"], .directory),
      (["shop", "data.tmp"], .file [0x61])]⟩

/-- A file is left beside one that has not been replaced, though the move did not fail. -/
def LeavesTemporary
    (disk : Disk) (path : String) (lines : List Line) (passed : Nat) : Prop :=
  ∃ error after content,
    replace disk path lines passed = (.error error, after) ∧
      ¬MoveFails disk path lines ∧
        after.standing? (Path.temporary path) = some (.file content)

/-- A file of an earlier attempt in a directory that gives up no names. -/
def sealed : Disk where
  nodes := ⟨[(["shop"], .directory), (["shop", "data.tmp"], .file [0x61])]⟩
  closed := [["shop"]]

/-- The same file at the top. -/
def stale : Disk where
  nodes := ⟨[(["data.tmp"], .file [0x61])]⟩

/-- A path to `data` that stays where it is so many times before. -/
def winding : Nat → String
  | 0 => "data"
  | turns + 1 => "./" ++ winding turns

theorem parts_winding (turns : Nat) :
    Path.parts (winding turns) = List.replicate turns "." ++ ["data"] := by
  induction turns with
  | zero => decide
  | succ turns induction =>
      have here :
          Path.partsOf ("./" ++ winding turns).toList =
            ['.'] :: Path.partsOf (winding turns).toList := by
        rw [String.toList_append]
        rfl
      rw [winding, Path.parts, here, List.map_cons, List.replicate_succ,
        List.cons_append, ← induction]
      rfl

theorem utf8ByteSize_winding (turns : Nat) :
    (winding turns).utf8ByteSize = 2 * turns + 4 := by
  induction turns with
  | zero => decide
  | succ turns induction =>
      have step : "./".utf8ByteSize = 2 := by decide
      rw [winding, String.utf8ByteSize_append, induction, step]
      omega

section Winding

variable (turns : Nat)

theorem temporary_winding :
    Path.temporary (winding turns) = winding turns ++ ".tmp" :=
  Path.temporary_of_parts (parts_winding turns) (by decide) (by decide)

theorem fileName?_winding :
    Path.fileName? (winding turns) = some "data" := by
  have turned := Path.reverseParts_of_parts (parts_winding turns) (by decide)
  rw [Path.fileName?, turned]
  rfl

theorem locate_temporary_winding :
    stale.locate (Path.temporary (winding turns)) = .ok ["data.tmp"] := by
  have split :
      Path.parts (winding turns ++ ".tmp") =
        List.replicate turns "." ++ ["data.tmp"] :=
    Path.parts_append (parts_winding turns) (by decide)
  have inhabited : (winding turns ++ ".tmp").isEmpty = false := by
    rw [Bool.eq_false_iff]
    intro empty
    have size := congrArg String.utf8ByteSize (String.isEmpty_iff.mp empty)
    rw [String.utf8ByteSize_append] at size
    have suffix : ".tmp".utf8ByteSize = 4 := by decide
    have nothing : "".utf8ByteSize = 0 := by decide
    omega
  have idle : ∀ part ∈ List.replicate turns ".", Path.isIdle part = true := by
    intro part member
    rw [List.eq_of_mem_replicate member]
    rfl
  have stays := Disk.walk_idle stale.node?_top idle
  rw [temporary_winding, Disk.locate, inhabited, split,
    if_neg Bool.false_ne_true, Disk.walk_append stays]
  rfl

variable {turns}

/-- If the path is too long, nothing can be done to the file. -/
theorem leavesTemporary_winding
    (long : 2044 ≤ turns) (lines : List Line) (passed : Nat) :
    LeavesTemporary stale (winding turns) lines passed := by
  have tooLong : Path.fits (Path.temporary (winding turns)) = false := by
    have suffix : ".tmp".utf8ByteSize = 4 := by decide
    rw [temporary_winding, Path.fits, String.utf8ByteSize_append,
      utf8ByteSize_winding, suffix, Path.greatestSize]
    exact decide_eq_false (by omega)
  have refused (bytes : Bytes) :
      stale.write (Path.temporary (winding turns)) bytes =
        .error .tooLong := by
    rw [Disk.write, Disk.target, tooLong]
    rfl
  have standing :
      stale.standing? (Path.temporary (winding turns)) =
        some (.file [0x61]) :=
    Disk.standing?_of_locate (locate_temporary_winding turns)
  have stuck : stale.Stuck (Path.temporary (winding turns)) :=
    Disk.stuck_iff.mpr
      ⟨_, _, locate_temporary_winding turns, rfl, Or.inl tooLong⟩
  refine ⟨.file .tooLong, stale, [0x61], ?_, ?_, standing⟩
  · have fills :
        fill stale (Path.temporary (winding turns)) lines passed =
          (.error (.file .tooLong), stale) := by
      rw [fill]
      split <;> rw [refused]
    simp only [replace, fills, Disk.discard_of_stuck stuck]
  · exact not_moveFails_of_refused (refused [])

end Winding

end FeatureAtlas.Jsonl
