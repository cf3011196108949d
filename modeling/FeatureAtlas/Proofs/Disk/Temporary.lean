import FeatureAtlas.Proofs.Disk.Confinement
import Mathlib.Data.List.Basic

/-!
# Beside a file

The temporary file of a path stands beside the file itself: its path goes
through the same directories and ends in the same name with a suffix, so it is
another file.  Where both names are free for a file, writing the one and moving
it to the other succeeds, whatever the lines are, and leaves nothing in the
place of the temporary file.
-/

namespace FeatureAtlas

namespace Path

/-! ## Parts of a path -/

theorem partsOf_eq_splitOn (characters : List Char) :
    partsOf characters = characters.splitOn separator := by
  induction characters with
  | nil => rfl
  | cons character rest induction =>
      rw [List.splitOn_cons_eq_if_modifyHead, partsOf, induction]
      by_cases divides : character = separator
      · rw [if_pos divides, if_pos (beq_iff_eq.mpr divides)]
      · rw [if_neg divides, if_neg (mt beq_iff_eq.mp divides)]
        cases further : rest.splitOn separator with
        | nil => exact absurd further (List.splitOn_ne_nil _ _)
        | cons part parts => rfl

theorem partsOf_ne_nil (characters : List Char) :
    partsOf characters ≠ [] := by
  rw [partsOf_eq_splitOn]
  exact List.splitOn_ne_nil _ _

/-- What is added to a path without a slash is added to its last part. -/
theorem partsOf_append
    {characters last added : List Char} {before : List (List Char)}
    (parts : partsOf characters = before ++ [last])
    (plain : separator ∉ added) :
    partsOf (characters ++ added) = before ++ [last ++ added] := by
  induction characters generalizing before last with
  | nil =>
      rcases before with - | ⟨first, others⟩
      · cases parts
        rw [List.nil_append, partsOf_eq_splitOn]
        exact List.splitOn_eq_singleton plain
      · have short := congrArg List.length parts
        simp [partsOf] at short
  | cons character rest induction =>
      rw [partsOf] at parts
      rw [List.cons_append, partsOf]
      by_cases divides : character = separator
      · rw [if_pos divides] at parts ⊢
        rcases before with - | ⟨first, others⟩
        · exact absurd (List.cons.inj parts).2 (partsOf_ne_nil rest)
        · rcases List.cons.inj parts with ⟨rfl, below⟩
          rw [induction below]
          rfl
      · rw [if_neg divides] at parts ⊢
        cases below : partsOf rest with
        | nil => exact absurd below (partsOf_ne_nil rest)
        | cons head tail =>
            rw [below] at parts
            rcases before with - | ⟨first, others⟩
            · rcases List.cons.inj parts with ⟨rfl, rfl⟩
              have single : partsOf rest = [] ++ [head] := below
              rw [induction single]
              rfl
            · rcases List.cons.inj parts with ⟨rfl, rfl⟩
              have several :
                  partsOf rest = (head :: others) ++ [last] := below
              rw [induction several]
              rfl

theorem map_toList_parts (path : String) :
    (parts path).map String.toList = partsOf path.toList := by
  have inverse : String.toList ∘ String.ofList = id :=
    funext fun _ => String.toList_ofList
  rw [parts, List.map_map, inverse, List.map_id]

/-- A path is put together from its parts. -/
theorem ofParts_parts {path : String} (named : parts path ≠ [""]) :
    ofParts (parts path) = path := by
  have joined : "/".intercalate (parts path) = path := by
    apply String.ext
    rw [String.toList_intercalate, map_toList_parts, partsOf_eq_splitOn]
    exact List.intercalate_splitOn separator
  rw [ofParts]
  · exact joined
  · exact named

section Named

variable {path name : String} {before : List String}

/-- Nothing is idle behind the name that a path ends in. -/
theorem reverseParts_of_parts
    (split : parts path = before ++ [name]) (busy : isIdle name = false) :
    reverseParts path = name :: before.reverse := by
  rw [reverseParts, split, List.reverse_append, List.reverse_singleton,
    List.singleton_append]
  cases before.reverse with
  | nil => rfl
  | cons next rest => rw [dropIdle, if_neg (Bool.eq_false_iff.mp busy)]

/-- The temporary file of a path that ends in a name has the path with a suffix. -/
theorem temporary_of_parts
    (split : parts path = before ++ [name]) (busy : isIdle name = false)
    (down : name ≠ "..") :
    temporary path = path ++ ".tmp" := by
  have turned := reverseParts_of_parts split busy
  have named : fileName? path = some name := by
    rw [fileName?, turned]
    simp [busy, down]
  have several : parts path ≠ [""] := by
    intro single
    have same : ([] : List String) ++ [""] = before ++ [name] :=
      single.symm.trans split
    have last := (List.append_inj' same rfl).2
    rw [List.cons.injEq, and_iff_left rfl] at last
    rw [← last] at busy
    exact absurd busy (by decide)
  rw [temporary, named, turned, List.reverse_cons, List.reverse_reverse,
    ← split]
  exact congrArg (· ++ ".tmp") (ofParts_parts several)

theorem parts_append
    (split : parts path = before ++ [name]) {added : String}
    (plain : separator ∉ added.toList) :
    parts (path ++ added) = before ++ [name ++ added] := by
  have characters :
      partsOf path.toList =
        before.map String.toList ++ [name.toList] := by
    rw [← map_toList_parts, split, List.map_append, List.map_singleton]
  have inverse : String.ofList ∘ String.toList = id :=
    funext fun _ => String.ofList_toList
  rw [parts, String.toList_append, partsOf_append characters plain,
    List.map_append, List.map_map, inverse, List.map_id, List.map_singleton,
    String.ofList_append, String.ofList_toList, String.ofList_toList]

end Named

end Path

namespace Disk

theorem isDots_append (name : String) : isDots (name ++ ".tmp") = false := by
  have longer :
      ".".length < (name ++ ".tmp").length ∧
        "..".length < (name ++ ".tmp").length := by
    rw [String.length_append]
    exact ⟨Nat.lt_add_left _ (by decide), Nat.lt_add_left _ (by decide)⟩
  rw [isDots, Bool.or_eq_false_iff, beq_eq_false_iff_ne, beq_eq_false_iff_ne]
  constructor
  · intro same
    exact Nat.lt_irrefl _ (same ▸ longer.1)
  · intro same
    exact Nat.lt_irrefl _ (same ▸ longer.2)

theorem append_temporary_ne (name : String) : name ++ ".tmp" ≠ name := by
  intro same
  have lengths := congrArg String.length same
  rw [String.length_append, Nat.add_eq_left] at lengths
  exact absurd lengths (by decide)

/-- The place of a new name, from the parts of a path. -/
theorem target_of_parts
    {disk : Disk} {path name : String} {before : List String}
    {directory : Location} (short : Path.fits path = true)
    (split : Path.parts path = before ++ [name]) (named : name ≠ "")
    (walked : disk.walk [] before = .ok directory)
    (here : disk.node? directory = some .directory) :
    disk.target path = .ok (directory, name, false) := by
  have turned : (Path.parts path).reverse = name :: before.reverse := by
    rw [split, List.reverse_append, List.reverse_singleton,
      List.singleton_append]
  have checked := (disk.checkDirectory_eq_ok_iff directory).mpr here
  rw [target, short, turned,
    List.takeWhile_cons_of_neg (by simpa using named),
    List.dropWhile_cons_of_neg (by simpa using named)]
  simp only [List.reverse_reverse, bind, Except.bind, walked, checked,
    List.isEmpty_nil, Bool.not_true, Bool.false_eq_true, if_false]

/-- A change that keeps the directories keeps the places of new names. -/
theorem Keeps.target
    {earlier later : Disk} (keeps : earlier.Keeps later)
    {path name : String} {directory : Location}
    (aimed : earlier.target path = .ok (directory, name, false)) :
    later.target path = .ok (directory, name, false) := by
  obtain ⟨before, split, named, walked, here⟩ := parts_of_target aimed
  have reaches := reaches_of_walk earlier.reaches_top walked
  exact
    target_of_parts (fits_of_target aimed) split named
      (keeps.walk earlier.reaches_top walked) (keeps directory reaches here)

/-- The temporary file of a path goes into the same directory. -/
theorem target_temporary
    {disk : Disk} {path name : String} {directory : Location}
    (short : Path.fits (Path.temporary path) = true)
    (aimed : disk.target path = .ok (directory, name, false))
    (plain : isDots name = false) :
    disk.target (Path.temporary path) =
      .ok (directory, name ++ ".tmp", false) := by
  obtain ⟨before, split, named, walked, here⟩ := parts_of_target aimed
  simp only [isDots, Bool.or_eq_false_iff, beq_eq_false_iff_ne] at plain
  have busy : Path.isIdle name = false := by
    simp [Path.isIdle, named, plain.1]
  have beside := Path.parts_append split (by decide : Path.separator ∉ ".tmp".toList)
  rw [Path.temporary_of_parts split busy plain.2] at short ⊢
  exact target_of_parts short beside (by simp) walked here

/-! ## Names of files -/

section Files

variable {disk : Disk} {path : String}

/-- Going up from a directory leads to a directory. -/
theorem Reaches.node?_dropLast
    {location : Location} (reaches : disk.Reaches location)
    (here : disk.node? location = some .directory) :
    disk.node? location.dropLast = some .directory := by
  rcases List.eq_nil_or_concat location with rfl | ⟨start, last, rfl⟩
  · exact here
  · rw [List.concat_eq_append, List.dropLast_concat]
    exact reaches start last [] (List.concat_eq_append)

/-- The path of a file ends in a name. -/
theorem exists_name_of_read
    {content : Bytes} (found : disk.read path = .ok content) :
    ∃ before name,
      Path.parts path = before ++ [name] ∧
        Path.isIdle name = false ∧ name ≠ ".." := by
  rcases read_eq_ok_iff.mp found with ⟨-, location, located, standing⟩
  rcases List.eq_nil_or_concat (Path.parts path) with nothing | ⟨before, name, split⟩
  · rw [Path.parts, List.map_eq_nil_iff] at nothing
    exact absurd nothing (Path.partsOf_ne_nil _)
  · rw [List.concat_eq_append] at split
    have whole := walk_of_locate located
    rw [split] at whole
    rcases exists_walk_of_append whole with ⟨middle, walked, last⟩
    have here := node?_of_walk_cons last
    have reaches := reaches_of_walk disk.reaches_top walked
    rw [walk_cons here, walk, Except.ok.injEq] at last
    subst last
    -- Any other part leads from a directory to a directory, where no file is.
    refine ⟨before, name, split, ?_, ?_⟩
    · rw [Bool.eq_false_iff]
      intro idle
      rw [stepTo, if_pos idle, here] at standing
      cases standing
    · rintro rfl
      have up : stepTo middle ".." = middle.dropLast := by
        rw [stepTo, if_neg (by decide), if_pos rfl]
      rw [up, reaches.node?_dropLast here] at standing
      cases standing

/-- A file is not where its temporary file belongs. -/
theorem apart_temporary_of_read
    {content : Bytes} (found : disk.read path = .ok content) :
    disk.Apart path (Path.temporary path) := by
  rcases exists_name_of_read found with ⟨before, name, split, busy, down⟩
  have beside :=
    Path.parts_append split (by decide : Path.separator ∉ ".tmp".toList)
  have plain := isDots_append name
  simp only [isDots, Bool.or_eq_false_iff, beq_eq_false_iff_ne] at plain
  intro location here there
  rw [Path.temporary_of_parts split busy down] at there
  rcases exists_directory_of_locate split busy down here with
    ⟨directory, -, -, rfl⟩
  rcases exists_directory_of_locate beside (by simp [Path.isIdle, plain.1])
      plain.2 there with
    ⟨other, -, -, same⟩
  have names : [name] = [name ++ ".tmp"] := (List.append_inj' same rfl).2
  exact append_temporary_ne name (List.cons.inj names).1.symm

end Files

/-! ## Writable paths -/

/--
A file can be replaced at a path: there is a directory for it that is not
closed, neither its name nor that of its temporary file belongs to a directory,
and the path of the temporary file is short enough.
-/
def Writable (disk : Disk) (path : String) : Prop :=
  Path.fits (Path.temporary path) = true ∧
    ∃ directory name,
      disk.target path = .ok (directory, name, false) ∧
        isDots name = false ∧
          disk.isClosed directory = false ∧
            disk.node? (directory ++ [name]) ≠ some .directory ∧
              disk.node? (directory ++ [name ++ ".tmp"]) ≠ some .directory

/-- A file is written where its name is free. -/
theorem write_of_target
    {disk : Disk} {path name : String} {directory : Location}
    (aimed : disk.target path = .ok (directory, name, false))
    (plain : isDots name = false) (opened : disk.isClosed directory = false)
    (free : disk.node? (directory ++ [name]) ≠ some .directory)
    (content : Bytes) :
    disk.write path content =
      .ok (disk.put (directory ++ [name]) (.file content)) := by
  rw [write, aimed]
  simp only [bind, Except.bind, plain, opened, Bool.or_false,
    Bool.false_eq_true, if_false]
  split
  · rename_i here
    exact absurd here free
  · rfl
  · rfl

/-- A file is moved to a name beside its own. -/
theorem Moves.rename
    {disk : Disk} {source path name former : String} {content : Bytes}
    {directory : Location}
    (moves :
      disk.Moves source path content (directory ++ [former]) directory
        name) :
    disk.rename source path =
      .ok
        ((disk.remove (directory ++ [former])).put (directory ++ [name])
          (.file content)) := by
  have taken :=
    read_eq_ok_iff.mpr ⟨moves.short, _, moves.found, moves.standing⟩
  have resolved := resolve_eq_ok_iff.mpr ⟨moves.short, moves.found⟩
  have free := moves.free
  rw [Disk.rename, taken]
  simp only [bind, Except.bind, resolved, moves.aimed, moves.plain,
    List.dropLast_concat, moves.opened, Bool.or_false, Bool.false_eq_true,
    if_false]

end Disk

namespace Jsonl

variable {disk filled replaced : Disk} {path : String} {lines : List Line}
  {passed : Nat} {bytes : Bytes}

/-- A file is replaced if each step succeeds. -/
theorem replace_of_steps
    (formed : content lines = .ok bytes)
    (fills : disk.write (Path.temporary path) bytes = .ok filled)
    (moves : filled.rename (Path.temporary path) path = .ok replaced) :
    replace disk path lines passed = (.ok (), replaced) := by
  simp only [replace, fill, formed, fills, moves]

/-- Lines that have a form are written to a writable path. -/
theorem replace_of_writable
    (writable : disk.Writable path) (formed : content lines = .ok bytes)
    (passed : Nat) :
    ∃ replaced, replace disk path lines passed = (.ok (), replaced) := by
  rcases writable with
    ⟨short, directory, name, aimed, plain, opened, free, freeBeside⟩
  have beside := Disk.target_temporary short aimed plain
  have besidePlain := Disk.isDots_append name
  have fills :=
    Disk.write_of_target beside besidePlain opened freeBeside bytes
  have below : directory ++ [name ++ ".tmp"] ≠ [] := by simp
  have keeps := Disk.keeps_put below freeBeside bytes
  have found := keeps.locate (Disk.locate_of_target beside besidePlain)
  have standing :
      (disk.put (directory ++ [name ++ ".tmp"]) (.file bytes)).node?
          (directory ++ [name ++ ".tmp"]) =
        some (.file bytes) := by
    rw [Disk.node?_put disk _ below, if_pos rfl]
  have stillFree :
      (disk.put (directory ++ [name ++ ".tmp"]) (.file bytes)).node?
          (directory ++ [name]) ≠
        some .directory := by
    rw [Disk.node?_put disk _ below]
    split
    · simp
    · exact free
  have moves :
      (disk.put (directory ++ [name ++ ".tmp"]) (.file bytes)).Moves
        (Path.temporary path) path bytes (directory ++ [name ++ ".tmp"])
        directory name :=
    ⟨short, found, standing, keeps.target aimed, plain, opened, stillFree⟩
  exact ⟨_, replace_of_steps formed fills moves.rename⟩

/-- A file that was replaced has a path that is short enough, and so has its temporary file. -/
theorem fits_of_replace
    (done : replace disk path lines passed = (.ok (), replaced)) :
    Path.fits path = true ∧ Path.fits (Path.temporary path) = true := by
  obtain ⟨bytes, written, -, filled, moved⟩ := replace_eq_ok done
  obtain ⟨content, origin, directory, name, moves, -⟩ :=
    Disk.rename_eq_ok moved
  exact ⟨moves.place.short, moves.short⟩

/-- Nothing is left in the place of the temporary file of a file that was replaced. -/
theorem read_temporary_of_replace
    (done : replace disk path lines passed = (.ok (), replaced)) :
    replaced.read (Path.temporary path) = .error .missing := by
  obtain ⟨bytes, written, -, filled, moved⟩ := replace_eq_ok done
  have there := (Disk.read_of_rename moved).trans (Disk.read_of_write filled)
  have apart := Disk.apart_temporary_of_read there
  exact
    Disk.read_source_of_rename moved
      ((Disk.confined_rename moved).apart_iff.mp apart)

end Jsonl

end FeatureAtlas
