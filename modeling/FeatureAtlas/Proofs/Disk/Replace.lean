import FeatureAtlas.Jsonl.Writing
import FeatureAtlas.Proofs.Disk.Locations

/-!
# Replacing a file

Writing puts a file at a location, and renaming moves one there.  Both leave
every directory in place, so a path leads where it led before.  A file is
replaced by a write and a rename, if both succeed; each way in which they can
fail is told apart here, once for all that is said of it later.
-/

namespace FeatureAtlas

namespace Disk

/-- A path leads to where a file may be put. -/
structure Free (disk : Disk) (path : String) (location : Location) : Prop where
  short : Path.fits path = true
  located : disk.locate path = .ok location
  below : location ≠ []
  free : disk.node? location ≠ some .directory

theorem free_of_target
    {disk : Disk} {path name : String} {directory : Location}
    (aimed : disk.target path = .ok (directory, name, false))
    (plain : isDots name = false)
    (free : disk.node? (directory ++ [name]) ≠ some .directory) :
    disk.Free path (directory ++ [name]) :=
  ⟨fits_of_target aimed, locate_of_target aimed plain, by simp, free⟩

/-! ## Single steps -/

/--
A file is written where its path leads, and a new one in a directory that is
not closed.
-/
theorem write_eq_ok
    {disk written : Disk} {path : String} {content : Bytes}
    (done : disk.write path content = .ok written) :
    ∃ location,
      disk.Free path location ∧
        (disk.node? location = none →
          disk.isClosed location.dropLast = false) ∧
          written = disk.put location (.file content) := by
  rw [write] at done
  cases aimed : disk.target path with
  | error problem =>
      simp only [bind, Except.bind, aimed] at done
      cases done
  | ok place =>
      rcases place with ⟨directory, name, slash⟩
      simp only [bind, Except.bind, aimed] at done
      split at done
      · cases done
      · rename_i plain
        simp only [Bool.or_eq_true, not_or, Bool.not_eq_true] at plain
        rcases plain with ⟨rfl, plain⟩
        have place := free_of_target aimed plain
        refine ⟨directory ++ [name], ?_⟩
        split at done
        · cases done
        · rename_i old here
          exact
            ⟨place (by simp [here]), by simp [here],
              (Except.ok.inj done).symm⟩
        · rename_i here
          split at done
          · cases done
          · rename_i opened
            exact
              ⟨place (by simp [here]), fun _ => by simpa using opened,
                (Except.ok.inj done).symm⟩

theorem read_eq_ok_iff
    {disk : Disk} {path : String} {content : Bytes} :
    disk.read path = .ok content ↔
      Path.fits path = true ∧
        ∃ location,
          disk.locate path = .ok location ∧
            disk.node? location = some (.file content) := by
  rw [read]
  cases resolved : disk.resolve path with
  | error problem =>
      have nowhere (short : Path.fits path = true) (location : Location) :
          disk.locate path ≠ .ok location := by
        intro located
        rw [resolve_eq_ok_iff.mpr ⟨short, located⟩] at resolved
        cases resolved
      simp +contextual [bind, Except.bind, nowhere]
  | ok location =>
      obtain ⟨short, located⟩ := resolve_eq_ok_iff.mp resolved
      simp only [bind, Except.bind, short, located, Except.ok.injEq,
        exists_eq_left', true_and]
      cases disk.node? location with
      | none => simp
      | some node => cases node <;> simp

/-- A file can be moved from where one path leads to a name in a directory. -/
structure Moves
    (disk : Disk) (source path : String) (content : Bytes)
    (origin directory : Location) (name : String) : Prop where
  short : Path.fits source = true
  found : disk.locate source = .ok origin
  standing : disk.node? origin = some (.file content)
  aimed : disk.target path = .ok (directory, name, false)
  plain : isDots name = false
  opened : disk.isClosed directory = false
  free : disk.node? (directory ++ [name]) ≠ some .directory

/-- The name is where the path leads. -/
theorem Moves.place
    {disk : Disk} {source path name : String} {content : Bytes}
    {origin directory : Location}
    (moves : disk.Moves source path content origin directory name) :
    disk.Free path (directory ++ [name]) :=
  free_of_target moves.aimed moves.plain moves.free

/-- A file is moved from where one path leads to where the other leads. -/
theorem rename_eq_ok
    {disk renamed : Disk} {source path : String}
    (done : disk.rename source path = .ok renamed) :
    ∃ content origin directory name,
      disk.Moves source path content origin directory name ∧
        renamed =
          (disk.remove origin).put (directory ++ [name]) (.file content) := by
  rw [rename] at done
  cases taken : disk.read source with
  | error problem =>
      simp only [bind, Except.bind, taken] at done
      cases done
  | ok content =>
      rcases read_eq_ok_iff.mp taken with ⟨short, origin, found, standing⟩
      have resolved := resolve_eq_ok_iff.mpr ⟨short, found⟩
      cases aimed : disk.target path with
      | error problem =>
          simp only [bind, Except.bind, taken, resolved, aimed] at done
          cases done
      | ok place =>
          rcases place with ⟨directory, name, slash⟩
          simp only [bind, Except.bind, taken, resolved, aimed] at done
          split at done
          · cases done
          · rename_i plain
            split at done
            · cases done
            · rename_i bare
              split at done
              · cases done
              · rename_i opened
                split at done
                · cases done
                · rename_i free
                  rw [Bool.not_eq_true] at plain bare
                  rw [Bool.or_eq_true, not_or, Bool.not_eq_true,
                    Bool.not_eq_true] at opened
                  subst bare
                  exact
                    ⟨content, origin, directory, name,
                      ⟨short, found, standing, aimed, plain, opened.2, free⟩,
                      (Except.ok.inj done).symm⟩

/-! ## What stays in place -/

theorem keeps_put
    {disk : Disk} {location : Location} (below : location ≠ [])
    (free : disk.node? location ≠ some .directory) (content : Bytes) :
    disk.Keeps (disk.put location (.file content)) := by
  intro other _ here
  rw [node?_put disk _ below, if_neg]
  · exact here
  · rintro rfl
    exact free here

/-- What is reached past directories does not lie below a file. -/
theorem Reaches.not_isPrefixOf
    {disk : Disk} {origin location : Location} {content : Bytes}
    (reaches : disk.Reaches location)
    (standing : disk.node? origin = some (.file content))
    (differ : origin ≠ location) :
    origin.isPrefixOf location = false := by
  rw [Bool.eq_false_iff]
  intro inside
  rcases List.isPrefixOf_iff_prefix.mp inside with ⟨rest, together⟩
  cases rest with
  | nil => exact differ (by simpa using together)
  | cons name rest =>
      rw [reaches origin name rest together.symm] at standing
      cases standing

theorem node?_remove_of_reaches
    {disk : Disk} {origin location : Location} {content : Bytes}
    (standing : disk.node? origin = some (.file content))
    (reaches : disk.Reaches location) (differ : origin ≠ location) :
    (disk.remove origin).node? location = disk.node? location := by
  rw [node?_remove, reaches.not_isPrefixOf standing differ]
  rfl

theorem keeps_remove
    {disk : Disk} {origin : Location} {content : Bytes}
    (standing : disk.node? origin = some (.file content)) :
    disk.Keeps (disk.remove origin) := by
  intro location reaches here
  rw [node?_remove_of_reaches standing reaches]
  · exact here
  · rintro rfl
    rw [standing] at here
    cases here

end Disk

/-! ## Filling and replacing -/

namespace Jsonl

variable {disk after : Disk} {path : String} {lines : List Line} {passed : Nat}

/-- A file is filled if the lines have a content that can be written. -/
theorem fill_eq_ok (done : fill disk path lines passed = (.ok (), after)) :
    ∃ bytes,
      content lines = .ok bytes ∧ disk.write path bytes = .ok after := by
  rw [fill] at done
  split at done
  · rename_i bytes formed
    split at done
    · cases done
    · rename_i filled written
      cases done
      exact ⟨bytes, formed, written⟩
  · split at done
    · cases done
    · cases done

/-- Filling that fails leaves the disk alone, or stops at a line without a form. -/
theorem fill_eq_error
    {error : LinesError}
    (failed : fill disk path lines passed = (.error error, after)) :
    (∃ bytes problem,
      disk.write path bytes = .error problem ∧ after = disk) ∨
      ∃ problem,
        content lines = .error problem ∧
          disk.write path ((begun lines).take passed) = .ok after := by
  rw [fill] at failed
  split at failed
  · split at failed
    · rename_i problem refused
      cases failed
      exact Or.inl ⟨_, problem, refused, rfl⟩
    · cases failed
  · rename_i problem formless
    split at failed
    · rename_i other refused
      cases failed
      exact Or.inl ⟨_, other, refused, rfl⟩
    · rename_i filled written
      cases failed
      exact Or.inr ⟨problem, formless, written⟩

/-- A file is replaced by writing the temporary one and renaming it. -/
theorem replace_eq_ok
    (done : replace disk path lines passed = (.ok (), after)) :
    ∃ bytes written,
      content lines = .ok bytes ∧
        disk.write (Path.temporary path) bytes = .ok written ∧
          written.rename (Path.temporary path) path = .ok after := by
  simp only [replace] at done
  split at done
  · cases done
  · rename_i filled fills
    split at done
    · cases done
    · rename_i renamed moved
      cases done
      obtain ⟨bytes, formed, written⟩ := fill_eq_ok fills
      exact ⟨bytes, filled, formed, written, moved⟩

/-- Replacing fails with the temporary file removed, if it can be, or at the move. -/
theorem replace_eq_error
    {error : LinesError}
    (failed : replace disk path lines passed = (.error error, after)) :
    (∃ stopped problem,
      fill disk (Path.temporary path) lines passed =
          (.error problem, stopped) ∧
        after = stopped.discard (Path.temporary path)) ∨
      ∃ bytes problem,
        content lines = .ok bytes ∧
          disk.write (Path.temporary path) bytes = .ok after ∧
            after.rename (Path.temporary path) path = .error problem := by
  simp only [replace] at failed
  split at failed
  · rename_i problem stopped fills
    cases failed
    exact Or.inl ⟨stopped, _, fills, rfl⟩
  · rename_i filled fills
    split at failed
    · rename_i problem stuck
      cases failed
      obtain ⟨bytes, formed, written⟩ := fill_eq_ok fills
      exact Or.inr ⟨bytes, problem, formed, written, stuck⟩
    · cases failed

end Jsonl

end FeatureAtlas
