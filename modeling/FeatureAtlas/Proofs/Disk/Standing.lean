import FeatureAtlas.Proofs.Disk.Confinement

/-!
# What stands at a path

Where a path leads there is a file, a directory or nothing, whether or not the
path is short enough to ask for it.  A file that can be removed is gone once it
has been discarded.  One that is stuck stays: its path is too long, or its
directory is closed.  Writing neither loosens a file nor makes it stick.
-/

namespace FeatureAtlas.Disk

/-- What stands where a path leads, if it leads anywhere. -/
def standing? (disk : Disk) (path : String) : Option Node :=
  match disk.locate path with
  | .ok location => disk.node? location
  | .error _ => none

/-- A file stands at a path and cannot be removed. -/
def Stuck (disk : Disk) (path : String) : Prop :=
  ∃ content problem,
    disk.standing? path = some (.file content) ∧
      disk.removeFile path = .error problem

variable {disk earlier later written : Disk} {path : String}

theorem standing?_of_locate
    {location : Location} (located : disk.locate path = .ok location) :
    disk.standing? path = disk.node? location := by
  rw [standing?, located]

theorem standing?_eq_file_iff {content : Bytes} :
    disk.standing? path = some (.file content) ↔
      ∃ location,
        disk.locate path = .ok location ∧
          disk.node? location = some (.file content) := by
  rw [standing?]
  cases disk.locate path with
  | error problem => simp
  | ok location => simp

/-- A file that is read at a path stands there. -/
theorem standing?_of_read
    {content : Bytes} (found : disk.read path = .ok content) :
    disk.standing? path = some (.file content) :=
  standing?_eq_file_iff.mpr (read_eq_ok_iff.mp found).2

theorem standing?_of_missing (missing : disk.read path = .error .missing) :
    disk.standing? path = none := by
  rw [read, resolve] at missing
  split at missing
  · rw [standing?]
    cases located : disk.locate path with
    | error problem => rfl
    | ok location =>
        simp only [bind, Except.bind, located] at missing
        split at missing
        · assumption
        · cases missing
        · cases missing
  · cases missing

/-- What stands at a path that no touched one meets is what stood there. -/
theorem Confined.standing?_eq
    {touched : List String} (confined : earlier.Confined later touched)
    (aside : ∀ other ∈ touched, earlier.Apart path other) :
    later.standing? path = earlier.standing? path := by
  cases located : earlier.locate path with
  | ok location =>
      rw [standing?_of_locate located,
        standing?_of_locate (confined.locate_iff.mpr located)]
      exact confined.node?_eq located aside
  | error problem =>
      cases again : later.locate path with
      | ok location =>
          rw [confined.locate_iff.mp again] at located
          cases located
      | error other => rw [standing?, again, standing?, located]

/-! ## Removing -/

/-- Where a file that is not stuck has been discarded, none stands. -/
theorem standing?_discard_ne
    (loose : ¬disk.Stuck path) (content : Bytes) :
    (disk.discard path).standing? path ≠ some (.file content) := by
  intro there
  rw [discard] at there
  split at there
  · rename_i removed done
    obtain ⟨location, old, located, standing, rfl⟩ := removeFile_eq_ok done
    have below : location ≠ [] := by
      rintro rfl
      rw [node?_top] at standing
      cases standing
    have confined := confined_remove located standing
    rw [standing?_of_locate (confined.locate_iff.mpr located), node?_remove,
      if_pos (by simp [below])] at there
    cases there
  · rename_i problem refused
    exact loose ⟨content, problem, there, refused⟩

/-- Discarding a file that is stuck changes nothing. -/
theorem discard_of_stuck (stuck : disk.Stuck path) :
    disk.discard path = disk := by
  obtain ⟨content, problem, -, refused⟩ := stuck
  rw [discard, refused]

/-- A file is stuck if its path is too long or its directory is closed. -/
theorem stuck_iff :
    disk.Stuck path ↔
      ∃ location content,
        disk.locate path = .ok location ∧
          disk.node? location = some (.file content) ∧
            (Path.fits path = false ∨
              disk.isClosed location.dropLast = true) := by
  constructor
  · rintro ⟨content, problem, there, refused⟩
    obtain ⟨location, located, standing⟩ := standing?_eq_file_iff.mp there
    refine ⟨location, content, located, standing, ?_⟩
    cases short : Path.fits path with
    | false => exact Or.inl rfl
    | true =>
        have resolved := resolve_eq_ok_iff.mpr ⟨short, located⟩
        simp only [removeFile, bind, Except.bind, resolved, standing]
          at refused
        split at refused
        · rename_i closed
          exact Or.inr closed
        · cases refused
  · rintro ⟨location, content, located, standing, held⟩
    have there := standing?_eq_file_iff.mpr ⟨location, located, standing⟩
    cases short : Path.fits path with
    | false =>
        have refused : disk.removeFile path = .error .tooLong := by
          rw [removeFile, resolve, short]
          rfl
        exact ⟨content, .tooLong, there, refused⟩
    | true =>
        have resolved := resolve_eq_ok_iff.mpr ⟨short, located⟩
        have closed : disk.isClosed location.dropLast = true := by
          simpa [short] using held
        have refused : disk.removeFile path = .error .denied := by
          simp only [removeFile, bind, Except.bind, resolved, standing,
            closed, if_true]
        exact ⟨content, .denied, there, refused⟩

/-! ## Writing -/

/-- Whether a file can be written does not depend on its content. -/
theorem exists_write
    {content : Bytes} (done : disk.write path content = .ok written)
    (other : Bytes) :
    ∃ again, disk.write path other = .ok again := by
  rw [write] at done ⊢
  cases aimed : disk.target path with
  | error problem =>
      simp only [bind, Except.bind, aimed] at done
      cases done
  | ok place =>
      simp only [bind, Except.bind, aimed] at done ⊢
      split at done
      · cases done
      · rename_i plain
        rw [if_neg plain]
        split at done
        · cases done
        · exact ⟨_, rfl⟩
        · split at done
          · cases done
          · rename_i opened
            rw [if_neg opened]
            exact ⟨_, rfl⟩

/-- A file that has been written is stuck if it was there before and was stuck. -/
theorem stuck_iff_of_write
    {content : Bytes} (done : disk.write path content = .ok written) :
    written.Stuck path ↔ disk.Stuck path := by
  have confined := confined_write done
  obtain ⟨location, free, opened, rfl⟩ := write_eq_ok done
  have led := confined.locate_iff.mpr free.located
  rw [stuck_iff, stuck_iff]
  simp only [led, free.located, free.short, Except.ok.injEq,
    isClosed_put, Bool.true_eq_false, false_or]
  constructor
  · rintro ⟨_, -, rfl, -, closed⟩
    cases here : disk.node? location with
    | none =>
        rw [opened here] at closed
        cases closed
    | some node =>
        cases node with
        | directory => exact absurd here free.free
        | file old => exact ⟨location, old, rfl, here, closed⟩
  · rintro ⟨_, old, rfl, -, closed⟩
    refine ⟨location, content, rfl, ?_, closed⟩
    rw [node?_put disk _ free.below, if_pos rfl]

end FeatureAtlas.Disk
