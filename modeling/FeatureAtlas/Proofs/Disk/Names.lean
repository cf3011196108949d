import FeatureAtlas.Proofs.Disk.Temporary

/-!
# Names that paths end in

Behind the name that a path ends in there may be slashes and single dots.
They make no difference to where the path leads, and the temporary file has
none of them: it goes into the same directory, under the name with a suffix.
So paths that end in different names never lead to one location, and neither
do those of their temporary files.
-/

namespace FeatureAtlas

namespace Path

/-! ## Parts and what they are put together to -/

theorem separator_not_mem_of_mem_partsOf
    {characters part : List Char} (member : part ∈ partsOf characters) :
    separator ∉ part := by
  induction characters generalizing part with
  | nil =>
      rw [partsOf, List.mem_singleton] at member
      simp [member]
  | cons character rest induction =>
      rw [partsOf] at member
      by_cases divides : character = separator
      · rw [if_pos divides] at member
        rcases List.mem_cons.mp member with rfl | below
        · exact List.not_mem_nil
        · exact induction below
      · rw [if_neg divides] at member
        cases further : partsOf rest with
        | nil => exact absurd further (partsOf_ne_nil rest)
        | cons first others =>
            rw [further] at member induction
            rcases List.mem_cons.mp member with rfl | below
            · rw [List.mem_cons, not_or]
              exact ⟨Ne.symm divides, induction List.mem_cons_self⟩
            · exact induction (List.mem_cons_of_mem _ below)

theorem separator_not_mem_of_mem_parts
    {path part : String} (member : part ∈ parts path) :
    separator ∉ part.toList := by
  have listed := List.mem_map_of_mem (f := String.toList) member
  rw [map_toList_parts] at listed
  exact separator_not_mem_of_mem_partsOf listed

/-- A path that is put together from parts has these parts. -/
theorem parts_ofParts
    {all : List String} (plain : ∀ part ∈ all, separator ∉ part.toList)
    (inhabited : all ≠ []) (named : all ≠ [""]) :
    parts (ofParts all) = all := by
  have joined : ofParts all = "/".intercalate all := by
    rw [ofParts]
    exact named
  have inverse : String.ofList ∘ String.toList = id :=
    funext fun _ => String.ofList_toList
  have divided :
      partsOf ("/".intercalate all).toList = all.map String.toList := by
    rw [String.toList_intercalate, partsOf_eq_splitOn]
    apply List.splitOn_intercalate
    · simpa using plain
    · simpa using inhabited
  rw [joined, parts, divided, List.map_map, inverse, List.map_id]

/-- What is dropped from the end of a path is idle. -/
theorem exists_idle_of_dropIdle (turned : List String) :
    ∃ idles,
      turned = idles ++ dropIdle turned ∧
        ∀ part ∈ idles, isIdle part = true := by
  fun_induction dropIdle turned with
  | case1 => exact ⟨[], rfl, by simp⟩
  | case2 part => exact ⟨[], rfl, by simp⟩
  | case3 part next rest idle induction =>
      obtain ⟨idles, split, all⟩ := induction
      refine ⟨part :: idles, ?_, List.forall_mem_cons.mpr ⟨idle, all⟩⟩
      rw [List.cons_append, ← split]
  | case4 part next rest busy => exact ⟨[], rfl, by simp⟩

/-! ## The name and what is around it -/

/-- A path goes through some parts to a name, behind which all parts are idle. -/
structure Ends
    (path : String) (before : List String) (name : String)
    (behind : List String) : Prop where
  split : parts path = before ++ name :: behind
  turned : reverseParts path = name :: before.reverse
  busy : isIdle name = false
  down : name ≠ ".."
  idle : ∀ part ∈ behind, isIdle part = true

section Named

variable {path name : String}

theorem exists_ends (named : fileName? path = some name) :
    ∃ before behind, Ends path before name behind := by
  rw [fileName?] at named
  split at named
  · cases named
  · rename_i last rest turned
    split at named
    · cases named
    · rename_i plain
      cases named
      simp only [Bool.or_eq_true, beq_iff_eq, not_or,
        Bool.not_eq_true] at plain
      obtain ⟨idles, split, idle⟩ :=
        exists_idle_of_dropIdle (parts path).reverse
      rw [← reverseParts, turned] at split
      refine ⟨rest.reverse, idles.reverse, ?_, ?_, plain.1, plain.2, ?_⟩
      · rw [← List.reverse_reverse (parts path), split]
        simp
      · rw [turned, List.reverse_reverse]
      · simpa using idle

variable {before behind : List String}

/-- The temporary file goes through the same parts, and its name has a suffix. -/
theorem Ends.parts_temporary (ends : Ends path before name behind) :
    parts (temporary path) = before ++ [name ++ ".tmp"] := by
  have named : fileName? path = some name := by
    rw [fileName?, ends.turned]
    simp [ends.busy, ends.down]
  have plain :
      ∀ part ∈ before ++ [name], separator ∉ part.toList := by
    intro part member
    have among : part ∈ parts path := by
      rw [ends.split, List.append_cons]
      exact List.mem_append_left _ member
    exact separator_not_mem_of_mem_parts among
  have solid : before ++ [name] ≠ [""] := by
    intro single
    have last : name = "" := by
      simpa using congrArg List.getLast? single
    have busy := ends.busy
    rw [last] at busy
    exact absurd busy (by decide)
  have joined : parts (ofParts (before ++ [name])) = before ++ [name] :=
    parts_ofParts plain (by simp) solid
  rw [temporary, named, ends.turned, List.reverse_cons, List.reverse_reverse]
  exact parts_append joined (by decide : separator ∉ ".tmp".toList)

theorem isIdle_append (name : String) : isIdle (name ++ ".tmp") = false := by
  have plain := Disk.isDots_append name
  simp only [Disk.isDots, Bool.or_eq_false_iff] at plain
  rw [isIdle, plain.1, Bool.or_false, beq_eq_false_iff_ne]
  simp

theorem append_ne_dots (name : String) : name ++ ".tmp" ≠ ".." := by
  have plain := Disk.isDots_append name
  simp only [Disk.isDots, Bool.or_eq_false_iff, beq_eq_false_iff_ne] at plain
  exact plain.2

theorem Ends.reverseParts_temporary
    (ends : Ends path before name behind) :
    reverseParts (temporary path) = (name ++ ".tmp") :: before.reverse :=
  reverseParts_of_parts ends.parts_temporary (isIdle_append name)

/-- The temporary file has the name with a suffix. -/
theorem fileName?_temporary (named : fileName? path = some name) :
    fileName? (temporary path) = some (name ++ ".tmp") := by
  obtain ⟨before, behind, ends⟩ := exists_ends named
  rw [fileName?, ends.reverseParts_temporary]
  simp [isIdle_append, append_ne_dots]

/-- The temporary file is in the same directory. -/
theorem parent?_temporary (named : fileName? path = some name) :
    parent? (temporary path) = parent? path := by
  obtain ⟨before, behind, ends⟩ := exists_ends named
  have solid : name ≠ "" := by
    rintro rfl
    exact absurd ends.busy (by decide)
  rw [parent?, parent?, ends.reverseParts_temporary, ends.turned]
  cases before.reverse with
  | nil => simp [solid]
  | cons next rest => simp

end Named

end Path

namespace Disk

variable {disk : Disk}

/-- Idle parts of a path stay in a directory. -/
theorem walk_idle
    {idles : List String} {location : Location}
    (here : disk.node? location = some .directory)
    (idle : ∀ part ∈ idles, Path.isIdle part = true) :
    disk.walk location idles = .ok location := by
  induction idles with
  | nil => rw [walk]
  | cons part rest induction =>
      rcases List.forall_mem_cons.mp idle with ⟨first, others⟩
      rw [walk_cons here, stepTo, if_pos first]
      exact induction others

/-- Idle parts lead nowhere else. -/
theorem eq_of_walk_idle
    {idles : List String} {location final : Location}
    (idle : ∀ part ∈ idles, Path.isIdle part = true)
    (walked : disk.walk location idles = .ok final) :
    final = location := by
  induction idles with
  | nil =>
      rw [walk, Except.ok.injEq] at walked
      exact walked.symm
  | cons part rest induction =>
      rcases List.forall_mem_cons.mp idle with ⟨here, others⟩
      rw [walk_cons (node?_of_walk_cons walked), stepTo,
        if_pos here] at walked
      exact induction others walked

/-- A path leads to the name that it ends in, if it leads anywhere. -/
theorem exists_append_of_locate
    {path name : String} (named : Path.fileName? path = some name)
    {location : Location} (located : disk.locate path = .ok location) :
    ∃ directory, location = directory ++ [name] := by
  obtain ⟨before, behind, ends⟩ := Path.exists_ends named
  have whole := walk_of_locate located
  rw [ends.split] at whole
  obtain ⟨directory, -, last⟩ := exists_walk_of_append whole
  rw [walk_cons (node?_of_walk_cons last)] at last
  have step : stepTo directory name = directory ++ [name] := by
    rw [stepTo, ends.busy, if_neg Bool.false_ne_true, if_neg ends.down]
  rw [step] at last
  exact ⟨directory, eq_of_walk_idle ends.idle last⟩

/-- Paths that end in different names lead to different locations. -/
theorem apart_of_fileName?_ne
    {path other name otherName : String}
    (named : Path.fileName? path = some name)
    (otherNamed : Path.fileName? other = some otherName)
    (differ : name ≠ otherName) :
    disk.Apart path other := by
  intro location here there
  obtain ⟨directory, rfl⟩ := exists_append_of_locate named here
  obtain ⟨elsewhere, same⟩ := exists_append_of_locate otherNamed there
  have names : [name] = [otherName] := (List.append_inj' same rfl).2
  exact differ (List.cons.inj names).1

end Disk

end FeatureAtlas
