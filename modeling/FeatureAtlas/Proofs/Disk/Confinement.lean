import FeatureAtlas.Proofs.Disk.Replace

/-!
# Changes that are confined to some paths

Writing, renaming and removing files makes no directory, removes none and
closes none, so after such a change every path leads where it led before.
Whatever stands at a location stays there unless one of the touched paths leads
to it.  Replacing a file touches its path and that of its temporary file,
whatever comes of it, and if it succeeds, the new content is read.
-/

namespace FeatureAtlas

namespace Disk

/-- No location is where both paths lead. -/
def Apart (disk : Disk) (path other : String) : Prop :=
  ∀ location,
    disk.locate path = .ok location → disk.locate other ≠ .ok location

theorem apart_of_ne
    {disk : Disk} {path other : String}
    (differ : disk.locate path ≠ disk.locate other) :
    disk.Apart path other := by
  intro location here there
  exact differ (here.trans there.symm)

/-- A change that leaves all directories, and whatever no touched path leads to. -/
structure Confined
    (earlier later : Disk) (touched : List String) : Prop where
  keeps : earlier.Keeps later
  kept : later.Keeps earlier
  closed : later.isClosed = earlier.isClosed
  unchanged :
    ∀ location,
      earlier.Reaches location →
        (∀ path ∈ touched, earlier.locate path ≠ .ok location) →
          later.node? location = earlier.node? location

namespace Confined

variable {earlier later : Disk} {touched : List String}

theorem refl (disk : Disk) (touched : List String) :
    disk.Confined disk touched where
  keeps := fun _ _ here => here
  kept := fun _ _ here => here
  closed := rfl
  unchanged := fun _ _ _ => rfl

theorem mono
    (confined : earlier.Confined later touched) {more : List String}
    (within : touched ⊆ more) :
    earlier.Confined later more where
  keeps := confined.keeps
  kept := confined.kept
  closed := confined.closed
  unchanged := by
    intro location reaches aside
    apply confined.unchanged location reaches
    intro path member
    exact aside path (within member)

/-- Every path leads where it led before. -/
theorem locate_iff
    (confined : earlier.Confined later touched) {path : String}
    {location : Location} :
    later.locate path = .ok location ↔ earlier.locate path = .ok location :=
  ⟨confined.kept.locate, confined.keeps.locate⟩

theorem apart_iff
    (confined : earlier.Confined later touched) {path other : String} :
    later.Apart path other ↔ earlier.Apart path other := by
  simp only [Apart, ne_eq, confined.locate_iff]

/-- Changes made one after the other are one change. -/
theorem trans
    {final : Disk} {further : List String}
    (confined : earlier.Confined later touched)
    (next : later.Confined final further) :
    earlier.Confined final (touched ++ further) where
  keeps := confined.keeps.trans next.keeps
  kept := next.kept.trans confined.kept
  closed := next.closed.trans confined.closed
  unchanged := by
    intro location reaches aside
    have second : final.node? location = later.node? location := by
      apply next.unchanged location (confined.keeps.reaches reaches)
      intro path member
      rw [ne_eq, confined.locate_iff]
      exact aside path (List.mem_append_right _ member)
    apply second.trans
    apply confined.unchanged location reaches
    intro path member
    exact aside path (List.mem_append_left _ member)

/-- What no touched path leads to is what it was. -/
theorem node?_eq
    (confined : earlier.Confined later touched)
    {path : String} {location : Location}
    (located : earlier.locate path = .ok location)
    (aside : ∀ other ∈ touched, earlier.Apart path other) :
    later.node? location = earlier.node? location := by
  apply confined.unchanged location (reaches_of_locate located)
  intro other member
  exact aside other member location located

/-- A file that is not touched has the content that it had, and none comes to be. -/
theorem read_iff
    (confined : earlier.Confined later touched) {path : String}
    (aside : ∀ other ∈ touched, earlier.Apart path other) {content : Bytes} :
    later.read path = .ok content ↔ earlier.read path = .ok content := by
  rw [read_eq_ok_iff, read_eq_ok_iff]
  apply and_congr_right
  intro _
  apply exists_congr
  intro location
  rw [confined.locate_iff]
  apply and_congr_right
  intro located
  rw [confined.node?_eq located aside]

/-- Paths that led to one location are read alike. -/
theorem read_eq_of_not_apart
    (confined : earlier.Confined later touched) {path other : String}
    (short : Path.fits path = true) (otherShort : Path.fits other = true)
    (met : ¬earlier.Apart path other) :
    later.read path = later.read other := by
  simp only [Apart, ne_eq, Classical.not_forall, Classical.not_not] at met
  rcases met with ⟨location, here, there⟩
  have resolved :=
    resolve_eq_ok_iff.mpr ⟨short, confined.locate_iff.mpr here⟩
  have otherResolved :=
    resolve_eq_ok_iff.mpr ⟨otherShort, confined.locate_iff.mpr there⟩
  rw [read, read, resolved, otherResolved]

end Confined

/-! ## Single steps -/

section Steps

variable {disk : Disk} {path : String} {location : Location}

/-- Putting a file makes no directory. -/
theorem keeps_of_put (below : location ≠ []) (content : Bytes) :
    (disk.put location (.file content)).Keeps disk := by
  intro other _ here
  rw [node?_put disk _ below] at here
  split at here
  · cases here
  · exact here

/-- Removing makes no directory. -/
theorem keeps_of_remove (location : Location) :
    (disk.remove location).Keeps disk := by
  intro other _ here
  rw [node?_remove] at here
  split at here
  · cases here
  · exact here

theorem confined_put (free : disk.Free path location) (content : Bytes) :
    disk.Confined (disk.put location (.file content)) [path] where
  keeps := keeps_put free.below free.free content
  kept := keeps_of_put free.below content
  closed := disk.isClosed_put _ _
  unchanged := by
    intro other _ aside
    rw [node?_put disk _ free.below, if_neg]
    rintro rfl
    exact aside path (List.mem_singleton_self path) free.located

theorem confined_remove
    {content : Bytes} (located : disk.locate path = .ok location)
    (standing : disk.node? location = some (.file content)) :
    disk.Confined (disk.remove location) [path] where
  keeps := keeps_remove standing
  kept := keeps_of_remove location
  closed := disk.isClosed_remove _
  unchanged := by
    intro other reaches aside
    apply node?_remove_of_reaches standing reaches
    rintro rfl
    exact aside path (List.mem_singleton_self path) located

theorem confined_write
    {written : Disk} {content : Bytes}
    (done : disk.write path content = .ok written) :
    disk.Confined written [path] := by
  obtain ⟨location, free, -, rfl⟩ := write_eq_ok done
  exact confined_put free content

theorem confined_rename
    {renamed : Disk} {source : String}
    (done : disk.rename source path = .ok renamed) :
    disk.Confined renamed [source, path] := by
  obtain ⟨content, origin, directory, name, moves, rfl⟩ := rename_eq_ok done
  have place := moves.place
  have removed := confined_remove moves.found moves.standing
  have vacant : (disk.remove origin).Free path (directory ++ [name]) := by
    refine ⟨place.short, removed.keeps.locate place.located, place.below, ?_⟩
    rw [node?_remove]
    split
    · simp
    · exact place.free
  exact removed.trans (confined_put vacant content)

/-- A file that is removed stood where its path leads. -/
theorem removeFile_eq_ok
    {removed : Disk} (done : disk.removeFile path = .ok removed) :
    ∃ location content,
      disk.locate path = .ok location ∧
        disk.node? location = some (.file content) ∧
          removed = disk.remove location := by
  rw [removeFile] at done
  cases resolved : disk.resolve path with
  | error problem =>
      simp only [bind, Except.bind, resolved] at done
      cases done
  | ok location =>
      simp only [bind, Except.bind, resolved] at done
      split at done
      · cases done
      · cases done
      · rename_i content standing
        split at done
        · cases done
        · exact
            ⟨location, content, (resolve_eq_ok_iff.mp resolved).2, standing,
              (Except.ok.inj done).symm⟩

theorem confined_discard (disk : Disk) (path : String) :
    disk.Confined (disk.discard path) [path] := by
  rw [discard]
  split
  · rename_i removed done
    obtain ⟨location, content, located, standing, rfl⟩ :=
      removeFile_eq_ok done
    exact confined_remove located standing
  · exact Confined.refl disk _

/-- What was written is read. -/
theorem read_of_write
    {written : Disk} {content : Bytes}
    (done : disk.write path content = .ok written) :
    written.read path = .ok content := by
  obtain ⟨location, free, -, rfl⟩ := write_eq_ok done
  refine
    read_eq_ok_iff.mpr
      ⟨free.short, location,
        (confined_put free content).locate_iff.mpr free.located, ?_⟩
  rw [node?_put disk _ free.below, if_pos rfl]

/-- What was moved is read where it has gone. -/
theorem read_of_rename
    {renamed : Disk} {source : String}
    (done : disk.rename source path = .ok renamed) :
    renamed.read path = disk.read source := by
  have confined := confined_rename done
  obtain ⟨content, origin, directory, name, moves, rfl⟩ := rename_eq_ok done
  have place := moves.place
  rw [read_eq_ok_iff.mpr ⟨moves.short, origin, moves.found, moves.standing⟩]
  refine
    read_eq_ok_iff.mpr
      ⟨place.short, _, confined.locate_iff.mpr place.located, ?_⟩
  rw [node?_put _ _ place.below, if_pos rfl]

/-- A file that has been moved is gone. -/
theorem read_source_of_rename
    {renamed : Disk} {source : String}
    (done : disk.rename source path = .ok renamed)
    (apart : disk.Apart path source) :
    renamed.read source = .error .missing := by
  have confined := confined_rename done
  obtain ⟨content, origin, directory, name, moves, rfl⟩ := rename_eq_ok done
  have place := moves.place
  have differ : origin ≠ directory ++ [name] := by
    rintro rfl
    exact apart _ place.located moves.found
  have below : origin ≠ [] := by
    rintro rfl
    have standing := moves.standing
    rw [node?_top] at standing
    cases standing
  have resolved :=
    resolve_eq_ok_iff.mpr
      ⟨moves.short, confined.locate_iff.mpr moves.found⟩
  rw [read, resolved]
  simp only [bind, Except.bind]
  rw [node?_put _ _ place.below, if_neg differ, node?_remove,
    if_pos (by simp [below])]

end Steps

end Disk

namespace Jsonl

variable {disk after : Disk} {path : String} {lines : List Line} {passed : Nat}

/-- Filling a file touches nothing else, whatever the outcome. -/
theorem confined_fill
    (disk : Disk) (path : String) (lines : List Line) (passed : Nat) :
    disk.Confined (fill disk path lines passed).2 [path] := by
  rcases outcome : fill disk path lines passed with ⟨error | ⟨⟩, filled⟩
  · rcases fill_eq_error outcome with
      ⟨-, -, -, rfl⟩ | ⟨-, -, written⟩
    · exact Disk.Confined.refl _ _
    · exact Disk.confined_write written
  · obtain ⟨bytes, -, written⟩ := fill_eq_ok outcome
    exact Disk.confined_write written

/-- A file that cannot be replaced is not touched, but its temporary file may be. -/
theorem confined_of_failed
    {error : LinesError}
    (failed : replace disk path lines passed = (.error error, after)) :
    disk.Confined after [Path.temporary path] := by
  rcases replace_eq_error failed with
    ⟨stopped, problem, fills, rfl⟩ | ⟨bytes, problem, -, written, -⟩
  · have confined := confined_fill disk (Path.temporary path) lines passed
    rw [fills] at confined
    exact (confined.trans (stopped.confined_discard _)).mono (by simp)
  · exact Disk.confined_write written

/-- Replacing a file touches it and its temporary file, whatever the outcome. -/
theorem confined_replace
    (disk : Disk) (path : String) (lines : List Line) (passed : Nat) :
    disk.Confined (replace disk path lines passed).2
      [Path.temporary path, path] := by
  rcases outcome : replace disk path lines passed with ⟨error | ⟨⟩, after⟩
  · exact (confined_of_failed outcome).mono (by simp)
  · obtain ⟨bytes, written, -, fills, moves⟩ := replace_eq_ok outcome
    exact
      ((Disk.confined_write fills).trans
        (Disk.confined_rename moves)).mono (by simp)

/--
A file that is replaced holds the new lines, and nothing but its temporary
file is touched besides.
-/
theorem confined_of_replace
    (done : replace disk path lines passed = (.ok (), after)) :
    ∃ bytes,
      content lines = .ok bytes ∧
        after.read path = .ok bytes ∧
          disk.Confined after [Path.temporary path, path] := by
  obtain ⟨bytes, written, produced, filled, moved⟩ := replace_eq_ok done
  have confined := confined_replace disk path lines passed
  rw [done] at confined
  exact
    ⟨bytes, produced,
      (Disk.read_of_rename moved).trans (Disk.read_of_write filled),
      confined⟩

end Jsonl

end FeatureAtlas
