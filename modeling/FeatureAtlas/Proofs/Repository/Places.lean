import FeatureAtlas.Proofs.Disk.Temporary
import FeatureAtlas.Repository.Basic

/-!
# The places of a repository

A name that is joined to a path is the last part of what comes of it.  So the
directory of a repository and its configuration are found under their own
names, and the temporary file of another file never takes their place.
-/

namespace FeatureAtlas

namespace Path

/-! ## Joined paths -/

/-- A slash separates the parts before it from those behind it. -/
theorem partsOf_separator (before behind : List Char) :
    partsOf (before ++ separator :: behind) =
      partsOf before ++ partsOf behind := by
  induction before with
  | nil => rfl
  | cons character rest induction =>
      rw [List.cons_append, partsOf, partsOf, induction]
      by_cases divides : character = separator
      · rw [if_pos divides, if_pos divides, List.cons_append]
      · rw [if_neg divides, if_neg divides]
        cases below : partsOf rest with
        | nil => exact absurd below (partsOf_ne_nil rest)
        | cons part parts => rfl

theorem parts_of_name {name : String} (plain : separator ∉ name.toList) :
    parts name = [name] := by
  rw [parts, partsOf_eq_splitOn, List.splitOn_eq_singleton plain,
    List.map_singleton, String.ofList_toList]

section Joined

variable {base name : String}

theorem isAbsolute_of_name (plain : separator ∉ name.toList) :
    isAbsolute name = false := by
  rw [isAbsolute, beq_eq_false_iff_ne]
  intro first
  exact plain (List.mem_of_head? first)

/-- A name stands behind a path that ends with a slash, or behind nothing. -/
theorem join_of_name (base : String) (plain : separator ∉ name.toList) :
    ∃ start,
      join base name = start ++ name ∧
        (start = "" ∨ ∃ before, start.toList = before ++ [separator]) := by
  rw [join, isAbsolute_of_name plain, Bool.false_or]
  split
  · exact ⟨"", (String.empty_append).symm, Or.inl rfl⟩
  · split
    · rename_i slash
      rcases List.getLast?_eq_some_iff.mp slash with ⟨before, whole⟩
      exact ⟨base, rfl, Or.inr ⟨before, whole⟩⟩
    · refine ⟨base ++ "/", rfl, Or.inr ⟨base.toList, ?_⟩⟩
      rw [String.toList_append]
      rfl

/-- A name that is joined to a path is the last part. -/
theorem parts_join (base : String) (plain : separator ∉ name.toList) :
    ∃ before, parts (join base name) = before ++ [name] := by
  rcases join_of_name base plain with
    ⟨start, joined, rfl | ⟨before, whole⟩⟩
  · rw [joined, String.empty_append]
    exact ⟨[], parts_of_name plain⟩
  · refine ⟨(partsOf before).map String.ofList, ?_⟩
    rw [joined, parts, String.toList_append, whole, List.append_assoc,
      List.singleton_append, partsOf_separator, List.map_append]
    exact congrArg _ (parts_of_name plain)

/-- Behind a path that does not end with a slash, a name is one more part. -/
theorem parts_join_of_solid
    (plain : separator ∉ name.toList) (inhabited : base ≠ "")
    (solid : base.toList.getLast? ≠ some separator) :
    parts (join base name) = parts base ++ [name] := by
  have busy : base.isEmpty = false := by
    rw [Bool.eq_false_iff]
    exact mt String.isEmpty_iff.mp inhabited
  have joined : join base name = base ++ "/" ++ name := by
    rw [join, isAbsolute_of_name plain, busy, if_neg (by decide),
      if_neg solid]
  have characters :
      (base ++ "/" ++ name).toList =
        base.toList ++ separator :: name.toList := by
    rw [String.toList_append, String.toList_append, List.append_assoc]
    rfl
  rw [joined, parts, characters, partsOf_separator, List.map_append]
  exact congrArg _ (parts_of_name plain)

end Joined

end Path

namespace Disk

variable {disk : Disk} {path name : String} {before : List String}

/-! ## What is there -/

theorem has_eq_true_iff :
    disk.has path = true ↔
      ∃ location,
        disk.locate path = .ok location ∧
          (disk.node? location).isSome = true := by
  rw [has, exists?]
  cases located : disk.locate path with
  | ok location => simp
  | error problem => cases problem <;> simp

/-! ## Temporary files -/

/-- A file that is replaced has a name, and the temporary file has it with a suffix. -/
theorem locate_temporary_of_replace
    {replaced : Disk} {lines : List Jsonl.Line} {passed : Nat}
    (done : Jsonl.replace disk path lines passed = (.ok (), replaced)) :
    ∃ directory name,
      disk.locate (Path.temporary path) =
        .ok (directory ++ [name ++ ".tmp"]) := by
  obtain ⟨bytes, written, -, filled, moved⟩ := Jsonl.replace_eq_ok done
  obtain ⟨content, origin, directory, name, moves, -⟩ := rename_eq_ok moved
  have back := (confined_write filled).kept.target moves.aimed
  exact
    ⟨directory, name,
      locate_of_target (target_temporary moves.short back moves.plain)
        (isDots_append name)⟩

/-- A name that does not end like that of a temporary file is not taken by one. -/
theorem apart_temporary_of_replace
    {file : String} {replaced : Disk} {lines : List Jsonl.Line} {passed : Nat}
    (done : Jsonl.replace disk file lines passed = (.ok (), replaced))
    (split : Path.parts path = before ++ [name])
    (busy : Path.isIdle name = false) (down : name ≠ "..")
    (differ : name.toList.getLast? ≠ some 'p') :
    disk.Apart path (Path.temporary file) := by
  intro location located other
  rcases exists_directory_of_locate split busy down located with
    ⟨directory, -, -, rfl⟩
  rcases locate_temporary_of_replace done with ⟨beside, stem, found⟩
  rw [found, Except.ok.injEq] at other
  have same : [stem ++ ".tmp"] = [name] := (List.append_inj' other rfl).2
  rw [List.cons.injEq, and_iff_left rfl] at same
  apply differ
  rw [← same, String.toList_append]
  exact List.getLast?_append_of_ne_nil _ (by decide)

end Disk

end FeatureAtlas
