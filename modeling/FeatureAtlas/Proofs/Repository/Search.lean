import FeatureAtlas.Proofs.Repository.Ancestors

/-!
# The search for a root

The search goes from a directory to the one above it until it finds one with
an entry of the right name, for at most 256 levels.  So it finds the nearest
such directory within reach, and nothing exactly if there is none.
-/

namespace FeatureAtlas

/-! ## Entries of directories -/

namespace Path

/-- A name stands in place of an empty last part or behind all parts. -/
theorem parts_join_cases
    {name : String} (base : String) (plain : separator ∉ name.toList) :
    (∃ before,
        parts base = before ++ [""] ∧
          parts (join base name) = before ++ [name]) ∨
      parts (join base name) = parts base ++ [name] := by
  by_cases empty : base = ""
  · subst empty
    refine Or.inl ⟨[], rfl, ?_⟩
    have joined : join "" name = name := by simp [join]
    rw [joined, parts_of_name plain, List.nil_append]
  · by_cases slash : base.toList.getLast? = some separator
    · rcases List.getLast?_eq_some_iff.mp slash with ⟨before, whole⟩
      have split :
          parts base = (partsOf before).map String.ofList ++ [""] := by
        rw [parts, whole, partsOf_separator, List.map_append]
        rfl
      have joined : join base name = base ++ name := by
        simp [join, isAbsolute_of_name plain, slash, empty]
      refine Or.inl ⟨_, split, ?_⟩
      rw [joined, parts_append split plain, String.empty_append]
    · exact Or.inr (parts_join_of_solid plain empty slash)

theorem join_ne_empty
    {name : String} (base : String) (plain : separator ∉ name.toList)
    (named : name ≠ "") :
    join base name ≠ "" := by
  intro empty
  rcases parts_join base plain with ⟨before, split⟩
  have whole : [] ++ [""] = before ++ [name] :=
    (congrArg parts empty).symm.trans split
  exact named (List.cons.inj (List.append_inj' whole rfl).2).1.symm

end Path

namespace Disk

variable {disk : Disk} {name : String}

/-- A path leads to a directory that has an entry of a name. -/
def HasEntry (disk : Disk) (path name : String) : Prop :=
  ∃ location,
    disk.walk [] (Path.parts path) = .ok location ∧
      disk.node? location = some .directory ∧
        (disk.node? (location ++ [name])).isSome = true

/-- A name behind a walk is an entry of where the walk ends. -/
theorem walk_append_name_iff
    (busy : Path.isIdle name = false) (down : name ≠ "..")
    {before : List String} {location : Location} :
    disk.walk [] (before ++ [name]) = .ok location ↔
      ∃ directory,
        disk.walk [] before = .ok directory ∧
          disk.node? directory = some .directory ∧
            directory ++ [name] = location := by
  have step (directory : Location) :
      stepTo directory name = directory ++ [name] := by
    rw [stepTo, busy, if_neg Bool.false_ne_true, if_neg down]
  constructor
  · intro walked
    rcases exists_walk_of_append walked with ⟨directory, first, last⟩
    have here := node?_of_walk_cons last
    rw [walk_cons here, step, walk, Except.ok.injEq] at last
    exact ⟨directory, first, here, last⟩
  · rintro ⟨directory, first, here, rfl⟩
    rw [walk_append first, walk_cons here, step, walk]

/-- A slash at the end asks for a directory and leads nowhere else. -/
theorem walk_append_slash_iff
    {before : List String} {location : Location} :
    disk.walk [] (before ++ [""]) = .ok location ↔
      disk.walk [] before = .ok location ∧
        disk.node? location = some .directory := by
  constructor
  · intro walked
    rcases exists_walk_of_append walked with ⟨directory, first, last⟩
    have here := node?_of_walk_cons last
    have same : location = directory :=
      eq_of_walk_idle (by simp [Path.isIdle]) last
    exact ⟨same ▸ first, same ▸ here⟩
  · rintro ⟨first, here⟩
    rw [walk_append first, walk_cons here]
    rfl

/-- A path with one more name leads to that name in where the path leads. -/
theorem walk_join_iff
    (plain : Path.separator ∉ name.toList) (busy : Path.isIdle name = false)
    (down : name ≠ "..") {path : String} {location : Location} :
    disk.walk [] (Path.parts (Path.join path name)) = .ok location ↔
      ∃ directory,
        disk.walk [] (Path.parts path) = .ok directory ∧
          disk.node? directory = some .directory ∧
            directory ++ [name] = location := by
  rcases Path.parts_join_cases path plain with
    ⟨before, base, joined⟩ | joined
  · rw [joined, base, walk_append_name_iff busy down]
    apply exists_congr
    intro directory
    rw [walk_append_slash_iff, and_assoc, and_self_left]
  · rw [joined, walk_append_name_iff busy down]

/-- A name that is joined to a path is there exactly if it is an entry of the path. -/
theorem has_join_iff
    (plain : Path.separator ∉ name.toList) (busy : Path.isIdle name = false)
    (down : name ≠ "..") (path : String) :
    disk.has (Path.join path name) = true ↔ disk.HasEntry path name := by
  have named : name ≠ "" := by
    rintro rfl
    exact absurd busy (by decide)
  have inhabited := mt String.isEmpty_iff.mp (Path.join_ne_empty path plain named)
  rw [has_eq_true_iff, locate, if_neg inhabited]
  simp only [walk_join_iff plain busy down]
  constructor
  · rintro ⟨_, ⟨directory, walked, here, rfl⟩, present⟩
    exact ⟨directory, walked, here, present⟩
  · rintro ⟨directory, walked, here, present⟩
    exact ⟨_, ⟨directory, walked, here, rfl⟩, present⟩

end Disk

namespace Repository

theorem isRoot_iff (disk : Disk) (base : String) :
    isRoot disk base = true ↔ disk.HasEntry base ".trellis" :=
  Disk.has_join_iff (by decide) (by decide) (by decide) base

/-! ## The loop -/

/-- The loop that goes up from the directory at a level, with what it ends with. -/
inductive Searches (disk : Disk) : Nat → String → Option String → Prop where
  | found
      (level : Nat) (current : String) (root : isRoot disk current = true) :
      Searches disk level current (some current)
  | far
      (level : Nat) (current : String) (other : isRoot disk current = false)
      (last : 256 < level + 1) :
      Searches disk level current none
  | top
      (level : Nat) (current : String) (other : isRoot disk current = false)
      (orphan : Path.parent? current = none) :
      Searches disk level current none
  | up
      (level : Nat) (current above : String) (outcome : Option String)
      (other : isRoot disk current = false) (more : level + 1 ≤ 256)
      (parent : Path.parent? current = some above)
      (rest : Searches disk (level + 1) above outcome) :
      Searches disk level current outcome

section Climbing

variable {disk : Disk} {current : String}

theorem find?_climb_of_root
    (root : isRoot disk current = true) (more : Nat) :
    (climb more current).find? (isRoot disk) = some current := by
  cases more with
  | zero => rw [climb, List.find?_cons_of_pos root]
  | succ more =>
      rw [climb]
      split <;> rw [List.find?_cons_of_pos root]

/-- From each level on, the loop ends with the first root that can still be climbed to. -/
theorem searches_climb
    (disk : Disk) (more : Nat) {level : Nat} (current : String)
    (bound : level + more = 256) :
    Searches disk level current
      ((climb more current).find? (isRoot disk)) := by
  induction more generalizing level current with
  | zero =>
      cases here : isRoot disk current with
      | true =>
          rw [find?_climb_of_root here]
          exact .found level current here
      | false =>
          rw [climb, List.find?_cons_of_neg (by simp [here]), List.find?_nil]
          exact .far level current here (by omega)
  | succ more induction =>
      cases here : isRoot disk current with
      | true =>
          rw [find?_climb_of_root here]
          exact .found level current here
      | false =>
          rw [climb]
          split
          · rename_i orphan
            rw [List.find?_cons_of_neg (by simp [here]), List.find?_nil]
            exact .top level current here orphan
          · rename_i above parent
            rw [List.find?_cons_of_neg (by simp [here])]
            exact
              .up level current above _ here (by omega) parent
                (induction above (by omega))

/-! ## Levels -/

/-- What can be climbed to at a level is the path so many levels above. -/
theorem getElem?_climb (more level : Nat) (path : String) :
    (climb more path)[level]? =
      if level ≤ more then Path.ancestor? path level else none := by
  induction more generalizing level path with
  | zero => cases level <;> simp [climb, Path.ancestor?]
  | succ more induction =>
      rw [climb]
      cases level with
      | zero => split <;> simp [Path.ancestor?]
      | succ level =>
          rw [Path.ancestor?_succ]
          split
          · rename_i orphan
            simp [orphan]
          · rename_i above parent
            rw [parent, List.getElem?_cons_succ, induction, Option.bind_some]
            simp only [Nat.add_le_add_iff_right]

theorem getElem?_climb_eq_some_iff (more level : Nat) (path base : String) :
    (climb more path)[level]? = some base ↔
      level ≤ more ∧ Path.ancestor? path level = some base := by
  rw [getElem?_climb]
  split
  · rename_i near
    rw [and_iff_right near]
  · rename_i far
    simp [far]

end Climbing

/-! ## The nearest root -/

/-- The root at a level above a directory, with no other one on the way. -/
structure Nearest (disk : Disk) (start : String) (level : Nat) (root : String) :
    Prop where
  there : Path.ancestor? start level = some root
  entry : disk.HasEntry root ".trellis"
  first :
    ∀ nearer < level, ∀ base,
      Path.ancestor? start nearer = some base →
        ¬disk.HasEntry base ".trellis"

theorem findRoot_eq_some_iff (disk : Disk) (start root : String) :
    findRoot disk start = some root ↔
      ∃ level ≤ 256, Nearest disk start level root := by
  have climbed (level : Nat) (base : String) :
      (climb greatestClimb start)[level]? = some base ↔
        level ≤ 256 ∧ Path.ancestor? start level = some base :=
    getElem?_climb_eq_some_iff greatestClimb level start base
  rw [findRoot, List.find?_eq_some_iff_getElem]
  constructor
  · rintro ⟨isRoot, level, bound, here, before⟩
    obtain ⟨near, there⟩ :=
      (climbed level root).mp (List.getElem?_eq_some_iff.mpr ⟨bound, here⟩)
    refine ⟨level, near, there, (isRoot_iff disk root).mp isRoot, ?_⟩
    intro nearer lower base above
    obtain ⟨inside, same⟩ :=
      List.getElem?_eq_some_iff.mp
        ((climbed nearer base).mpr ⟨by omega, above⟩)
    have other := before nearer lower
    rw [← isRoot_iff, ← same]
    simpa using other
  · rintro ⟨level, near, nearest⟩
    obtain ⟨bound, here⟩ :=
      List.getElem?_eq_some_iff.mp
        ((climbed level root).mpr ⟨near, nearest.there⟩)
    refine
      ⟨(isRoot_iff disk root).mpr nearest.entry, level, bound, here, ?_⟩
    intro nearer lower
    obtain ⟨-, above⟩ :=
      (climbed nearer _).mp
        (List.getElem?_eq_getElem (Nat.lt_trans lower bound))
    have other := nearest.first nearer lower _ above
    rw [← isRoot_iff] at other
    simpa using other

theorem findRoot_eq_none_iff (disk : Disk) (start : String) :
    findRoot disk start = none ↔
      ∀ level ≤ 256, ∀ base,
        Path.ancestor? start level = some base →
          ¬disk.HasEntry base ".trellis" := by
  rw [findRoot, List.find?_eq_none]
  constructor
  · intro missing level near base there
    have listed : base ∈ climb greatestClimb start :=
      List.mem_of_getElem?
        ((getElem?_climb_eq_some_iff _ _ _ _).mpr ⟨near, there⟩)
    exact mt (isRoot_iff disk base).mpr (missing base listed)
  · intro missing base listed
    rcases List.mem_iff_getElem?.mp listed with ⟨level, standing⟩
    rcases (getElem?_climb_eq_some_iff _ _ _ _).mp standing with ⟨near, there⟩
    exact mt (isRoot_iff disk base).mp (missing level near base there)

/-! ## What is found -/

/-- What a search from a directory comes to. -/
structure FindsNearest (disk : Disk) (start : String) : Prop where
  /-- The loop ends, with what is found. -/
  ends : Searches disk 0 start (findRoot disk start)
  found :
    ∀ root,
      findRoot disk start = some root ↔
        ∃ level ≤ 256, Nearest disk start level root
  missing :
    findRoot disk start = none ↔
      ∀ level ≤ 256, ∀ base,
        Path.ancestor? start level = some base →
          ¬disk.HasEntry base ".trellis"
  /-- There is a level for each component, up to the top. -/
  levels :
    ∀ level,
      (Path.ancestor? start level).isSome = true ↔
        level ≤ (Path.components start).length
  /-- At each level as many components are removed. -/
  above :
    ∀ level base,
      Path.ancestor? start level = some base →
        Path.Shortens base start level
  shortened :
    ∀ root,
      findRoot disk start = some root →
        ∃ level ≤ 256, Path.Shortens root start level

/--
From every directory, whatever is on the disk, the search ends with the
nearest directory that has the entry, within 256 levels and below the top.
-/
theorem findRoot_finds_nearest (disk : Disk) (start : String) :
    FindsNearest disk start where
  ends := searches_climb disk 256 start rfl
  found := findRoot_eq_some_iff disk start
  missing := findRoot_eq_none_iff disk start
  levels := Path.isSome_ancestor?_iff start
  above := fun _ _ => Path.shortens_of_ancestor?
  shortened := by
    intro root found
    rcases (findRoot_eq_some_iff disk start root).mp found with
      ⟨level, near, nearest⟩
    exact ⟨level, near, Path.shortens_of_ancestor? nearest.there⟩

/-- Slashes and dots between components take no level. -/
example :
    findRoot
        { nodes := ⟨[([".trellis"], .directory), (["shop"], .directory)]⟩ }
        "/shop//floor/./" = some "/" := by
  decide +kernel

end Repository

end FeatureAtlas
