import FeatureAtlas.Disk.Basic

/-!
# Where paths lead

Walking a path passes through directories only, so whatever it leads to has
directories all the way down to it.  A change that leaves such directories in
place does not change where any path leads.  Writing and renaming are changes
of this kind: they put a file where no directory is.
-/

namespace FeatureAtlas.Disk

/-- There are directories all the way down to a location. -/
def Reaches (disk : Disk) (location : Location) : Prop :=
  ∀ above name below,
    location = above ++ name :: below → disk.node? above = some .directory

/-- Directories that can be reached stay in place. -/
def Keeps (earlier later : Disk) : Prop :=
  ∀ location,
    earlier.Reaches location → earlier.node? location = some .directory →
      later.node? location = some .directory

theorem checkDirectory_eq_ok_iff (disk : Disk) (location : Location) :
    disk.checkDirectory location = .ok () ↔
      disk.node? location = some .directory := by
  rw [checkDirectory]
  cases disk.node? location with
  | none => simp
  | some node => cases node <;> simp

/-! ## Walking down -/

theorem reaches_top (disk : Disk) : disk.Reaches [] := by
  intro above name below same
  exact absurd same.symm (List.append_ne_nil_of_right_ne_nil _ (by simp))

theorem Reaches.dropLast
    {disk : Disk} {location : Location} (reaches : disk.Reaches location) :
    disk.Reaches location.dropLast := by
  intro above name below same
  rcases List.eq_nil_or_concat location with rfl | ⟨start, last, rfl⟩
  · exact
      absurd same.symm (List.append_ne_nil_of_right_ne_nil _ (by simp))
  · rw [List.concat_eq_append, List.dropLast_concat] at same
    exact reaches above name (below ++ [last]) (by simp [same])

theorem Reaches.append
    {disk : Disk} {location : Location} (reaches : disk.Reaches location)
    (here : disk.node? location = some .directory) (part : String) :
    disk.Reaches (location ++ [part]) := by
  intro above name below same
  rcases List.eq_nil_or_concat below with rfl | ⟨start, last, rfl⟩
  · have parts := List.append_inj' same rfl
    rw [← parts.1]
    exact here
  · have parts : location = above ++ name :: start := by
      have together :
          location ++ [part] = (above ++ name :: start) ++ [last] := by
        simpa using same
      exact (List.append_inj' together rfl).1
    exact reaches above name start parts

/-- Where a part of a path leads from a directory. -/
def stepTo (location : Location) (part : String) : Location :=
  if Path.isIdle part then location
  else if part = ".." then location.dropLast
  else location ++ [part]

theorem Reaches.stepTo
    {disk : Disk} {location : Location} (reaches : disk.Reaches location)
    (here : disk.node? location = some .directory) (part : String) :
    disk.Reaches (stepTo location part) := by
  unfold Disk.stepTo
  split
  · exact reaches
  · split
    · exact reaches.dropLast
    · exact reaches.append here part

theorem walk_cons
    {disk : Disk} {location : Location}
    (here : disk.node? location = some .directory)
    (part : String) (parts : List String) :
    disk.walk location (part :: parts) =
      disk.walk (stepTo location part) parts := by
  have checked := (disk.checkDirectory_eq_ok_iff location).mpr here
  rw [walk, checked, stepTo]
  by_cases idle : Path.isIdle part = true
  · simp only [if_pos idle]
    rfl
  · by_cases up : part = ".."
    · simp only [if_neg idle, if_pos up]
      rfl
    · simp only [if_neg idle, if_neg up]
      rfl

theorem node?_of_walk_cons
    {disk : Disk} {location final : Location} {part : String}
    {parts : List String}
    (walked : disk.walk location (part :: parts) = .ok final) :
    disk.node? location = some .directory := by
  rw [walk] at walked
  cases checked : disk.checkDirectory location with
  | error problem =>
      rw [checked] at walked
      cases walked
  | ok done => exact (disk.checkDirectory_eq_ok_iff location).mp checked

theorem walk_append
    {disk : Disk} {first : List String} {location middle : Location}
    (walked : disk.walk location first = .ok middle) (second : List String) :
    disk.walk location (first ++ second) = disk.walk middle second := by
  induction first generalizing location with
  | nil =>
      rw [walk, Except.ok.injEq] at walked
      rw [List.nil_append, walked]
  | cons part parts induction =>
      have here := node?_of_walk_cons walked
      rw [walk_cons here] at walked
      rw [List.cons_append, walk_cons here]
      exact induction walked

/-- A walk goes through the end of each of its beginnings. -/
theorem exists_walk_of_append
    {disk : Disk} {first second : List String} {location final : Location}
    (walked : disk.walk location (first ++ second) = .ok final) :
    ∃ middle,
      disk.walk location first = .ok middle ∧
        disk.walk middle second = .ok final := by
  induction first generalizing location with
  | nil => exact ⟨location, by rw [walk], walked⟩
  | cons part parts induction =>
      rw [List.cons_append] at walked
      have here := node?_of_walk_cons walked
      rw [walk_cons here] at walked ⊢
      exact induction walked

/-- A walk ends where directories lead. -/
theorem reaches_of_walk
    {disk : Disk} {parts : List String} {location final : Location}
    (reaches : disk.Reaches location)
    (walked : disk.walk location parts = .ok final) :
    disk.Reaches final := by
  induction parts generalizing location with
  | nil =>
      rw [walk, Except.ok.injEq] at walked
      exact walked ▸ reaches
  | cons part parts induction =>
      have here := node?_of_walk_cons walked
      rw [walk_cons here] at walked
      exact induction (reaches.stepTo here part) walked

/-- A walk goes the same way on a disk that keeps the directories. -/
theorem Keeps.walk
    {earlier later : Disk} (keeps : earlier.Keeps later)
    {parts : List String} {location final : Location}
    (reaches : earlier.Reaches location)
    (walked : earlier.walk location parts = .ok final) :
    later.walk location parts = .ok final := by
  induction parts generalizing location with
  | nil => exact walked
  | cons part parts induction =>
      have here := node?_of_walk_cons walked
      rw [walk_cons here] at walked
      rw [walk_cons (keeps location reaches here)]
      exact induction (reaches.stepTo here part) walked

/-- A path is walked from the top. -/
theorem walk_of_locate
    {disk : Disk} {path : String} {location : Location}
    (located : disk.locate path = .ok location) :
    disk.walk [] (Path.parts path) = .ok location := by
  rw [locate] at located
  split at located
  · cases located
  · exact located

theorem reaches_of_locate
    {disk : Disk} {path : String} {location : Location}
    (located : disk.locate path = .ok location) :
    disk.Reaches location :=
  reaches_of_walk disk.reaches_top (walk_of_locate located)

theorem Keeps.locate
    {earlier later : Disk} (keeps : earlier.Keeps later)
    {path : String} {location : Location}
    (located : earlier.locate path = .ok location) :
    later.locate path = .ok location := by
  rw [Disk.locate] at located ⊢
  split at located
  · cases located
  · rename_i inhabited
    rw [if_neg inhabited]
    exact keeps.walk earlier.reaches_top located

theorem Keeps.reaches
    {earlier later : Disk} (keeps : earlier.Keeps later)
    {location : Location} (reaches : earlier.Reaches location) :
    later.Reaches location := by
  intro above name below same
  refine keeps above ?_ (reaches above name below same)
  intro higher part lower parts
  refine reaches higher part (lower ++ name :: below) ?_
  rw [same, parts, List.append_assoc, List.cons_append]

theorem Keeps.trans
    {first second third : Disk} (before : first.Keeps second)
    (behind : second.Keeps third) :
    first.Keeps third := by
  intro location reaches here
  exact
    behind location (before.reaches reaches) (before location reaches here)

/-! ## The place of a name -/

/-- A path that ends in a name leads to that name in a directory. -/
theorem exists_directory_of_locate
    {disk : Disk} {path name : String} {before : List String}
    (split : Path.parts path = before ++ [name])
    (busy : Path.isIdle name = false) (down : name ≠ "..")
    {location : Location} (located : disk.locate path = .ok location) :
    ∃ directory,
      disk.walk [] before = .ok directory ∧
        disk.node? directory = some .directory ∧
          location = directory ++ [name] := by
  have whole := walk_of_locate located
  rw [split] at whole
  rcases exists_walk_of_append whole with ⟨directory, walked, last⟩
  have here := node?_of_walk_cons last
  rw [walk_cons here, walk, Except.ok.injEq] at last
  refine ⟨directory, walked, here, last.symm.trans ?_⟩
  rw [stepTo, busy, if_neg Bool.false_ne_true, if_neg down]

theorem fits_of_target
    {disk : Disk} {path : String} {place : Location × String × Bool}
    (aimed : disk.target path = .ok place) :
    Path.fits path = true := by
  rw [target] at aimed
  cases short : Path.fits path with
  | true => rfl
  | false =>
      rw [short] at aimed
      cases aimed

/-- What it takes for a path to have a place for a new name. -/
theorem parts_of_target
    {disk : Disk} {path name : String} {directory : Location}
    (aimed : disk.target path = .ok (directory, name, false)) :
    ∃ before,
      Path.parts path = before ++ [name] ∧ name ≠ "" ∧
        disk.walk [] before = .ok directory ∧
          disk.node? directory = some .directory := by
  have shape :=
    List.takeWhile_append_dropWhile
      (p := (· == "")) (l := (Path.parts path).reverse)
  have short := fits_of_target aimed
  simp only [target, short, Bool.not_true, Bool.false_eq_true, if_false]
    at aimed
  cases rest : (Path.parts path).reverse.dropWhile (· == "") with
  | nil =>
      rw [rest] at aimed
      simp only at aimed
      split at aimed <;> cases aimed
  | cons last before =>
      have solid : last ≠ "" := by
        have kept :=
          List.head?_dropWhile_not (· == "") (Path.parts path).reverse
        rw [rest] at kept
        simpa using kept
      rw [rest] at aimed shape
      cases walked : disk.walk [] before.reverse with
      | error problem =>
          simp only [bind, Except.bind, walked] at aimed
          cases aimed
      | ok found =>
          cases checked : disk.checkDirectory found with
          | error problem =>
              simp only [bind, Except.bind, walked, checked] at aimed
              cases aimed
          | ok done =>
              simp only [bind, Except.bind, walked, checked,
                Except.ok.injEq, Prod.mk.injEq, Bool.not_eq_false',
                List.isEmpty_iff] at aimed
              rcases aimed with ⟨rfl, rfl, empty⟩
              rw [empty, List.nil_append] at shape
              refine
                ⟨before.reverse, ?_, solid, walked,
                  (disk.checkDirectory_eq_ok_iff found).mp checked⟩
              rw [← List.reverse_reverse (Path.parts path), ← shape,
                List.reverse_cons]

/-- A name that may be written is where its path leads. -/
theorem locate_of_target
    {disk : Disk} {path name : String} {directory : Location}
    (aimed : disk.target path = .ok (directory, name, false))
    (plain : isDots name = false) :
    disk.locate path = .ok (directory ++ [name]) := by
  obtain ⟨before, parts, solid, walked, here⟩ := parts_of_target aimed
  simp only [isDots, Bool.or_eq_false_iff, beq_eq_false_iff_ne] at plain
  rcases plain with ⟨noDot, noDots⟩
  have inhabited : path.isEmpty = false := by
    rw [Bool.eq_false_iff]
    intro empty
    have nothing : path = "" := by simpa using empty
    subst nothing
    have single : Path.parts "" = [""] := rfl
    have whole : [] ++ [""] = before ++ [name] := single ▸ parts
    have last := List.append_inj' whole rfl
    simp only [List.cons.injEq, and_true] at last
    exact solid last.2.symm
  have step : stepTo directory name = directory ++ [name] := by
    have busy : Path.isIdle name = false := by
      simp [Path.isIdle, solid, noDot]
    simp [stepTo, busy, noDots]
  rw [locate, inhabited, parts, if_neg Bool.false_ne_true,
    walk_append walked, walk_cons here, step, walk]

/-- A path is resolved if it is short enough and leads somewhere. -/
theorem resolve_eq_ok_iff
    {disk : Disk} {path : String} {location : Location} :
    disk.resolve path = .ok location ↔
      Path.fits path = true ∧ disk.locate path = .ok location := by
  rw [resolve]
  split
  · rename_i short
    rw [and_iff_right short]
  · rename_i long
    simp [long]

end FeatureAtlas.Disk
