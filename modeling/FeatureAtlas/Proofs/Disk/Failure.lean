import FeatureAtlas.Proofs.Disk.Temporary

/-!
# Files that cannot be replaced

Whether a file can be replaced depends on its path and the directories alone:
lines that have a form replace it if and only if the path is writable.  Where
that fails, only the temporary file may have changed, and since this is another
file, the file itself is what it was.
-/

namespace FeatureAtlas

namespace Disk

variable {disk earlier later : Disk} {path : String}

/-! ## Writable paths -/

/-- Whether a path is writable depends on the directories alone. -/
theorem Writable.of_keeps
    (keeps : earlier.Keeps later) (kept : later.Keeps earlier)
    (closed : later.isClosed = earlier.isClosed)
    (writable : earlier.Writable path) :
    later.Writable path := by
  rcases writable with
    ⟨short, directory, name, aimed, plain, opened, free, freeBeside⟩
  have again := keeps.target aimed
  refine ⟨short, directory, name, again, plain, closed ▸ opened, ?_, ?_⟩
  · intro here
    have reaches := reaches_of_locate (locate_of_target again plain)
    exact free (kept _ reaches here)
  · intro here
    have reaches :=
      reaches_of_locate
        (locate_of_target (target_temporary short again plain)
          (isDots_append name))
    exact freeBeside (kept _ reaches here)

theorem Confined.writable_iff
    {touched : List String} (confined : earlier.Confined later touched) :
    later.Writable path ↔ earlier.Writable path :=
  ⟨.of_keeps confined.kept confined.keeps confined.closed.symm,
    .of_keeps confined.keeps confined.kept confined.closed⟩

end Disk

namespace Jsonl

variable {disk after : Disk} {path : String} {lines : List Line} {passed : Nat}

/-- What has been replaced could be replaced. -/
theorem writable_of_replace
    (done : replace disk path lines passed = (.ok (), after)) :
    disk.Writable path := by
  obtain ⟨bytes, written, -, filled, moved⟩ := replace_eq_ok done
  obtain ⟨content, origin, directory, name, moves, -⟩ :=
    Disk.rename_eq_ok moved
  obtain ⟨location, place, -, made⟩ := Disk.write_eq_ok filled
  have confined := Disk.confined_write filled
  have beside :=
    Disk.locate_of_target
      (Disk.target_temporary moves.short moves.aimed moves.plain)
      (Disk.isDots_append name)
  have same :=
    Except.ok.inj
      ((confined.locate_iff.mpr place.located).symm.trans beside)
  refine
    confined.writable_iff.mp
      ⟨moves.short, directory, name, moves.aimed, moves.plain, moves.opened,
        moves.free, ?_⟩
  rw [← same, made, Disk.node?_put disk _ place.below, if_pos rfl]
  simp

/-- Lines that have a form fail to be written at no writable path. -/
theorem not_writable_of_failed
    {error : LinesError} {bytes : Bytes}
    (formed : content lines = .ok bytes)
    (failed : replace disk path lines passed = (.error error, after)) :
    ¬disk.Writable path := by
  intro writable
  rcases replace_of_writable writable formed passed with ⟨replaced, done⟩
  rw [failed] at done
  cases done

/-- A file that could not be replaced has the content that it had. -/
theorem read_iff_of_failed
    {error : LinesError}
    (failed : replace disk path lines passed = (.error error, after))
    {bytes : Bytes} :
    after.read path = .ok bytes ↔ disk.read path = .ok bytes := by
  have confined := confined_of_failed failed
  have same (apart : disk.Apart path (Path.temporary path)) :
      after.read path = .ok bytes ↔ disk.read path = .ok bytes := by
    apply confined.read_iff
    intro other member
    rw [List.mem_singleton.mp member]
    exact apart
  -- Whichever disk has the file, its name keeps it apart from the temporary one.
  constructor
  · intro found
    have apart := Disk.apart_temporary_of_read found
    exact (same (confined.apart_iff.mp apart)).mp found
  · intro found
    exact (same (Disk.apart_temporary_of_read found)).mpr found

end Jsonl

end FeatureAtlas
