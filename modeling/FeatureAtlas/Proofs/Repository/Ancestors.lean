import FeatureAtlas.Proofs.Disk.Names
import FeatureAtlas.Proofs.Repository.Places

/-!
# Paths above a path

Going to the parent takes the last component off a path and leaves the text in
front of it as it is.  Idle parts are no components: they go together with the
component in front of which they stand.  So a path has as many paths above it
as it has components, and each of them is the path with some of its last
components removed.
-/

namespace FeatureAtlas.Path

/-! ## Components -/

/-- The parts that are not idle; a single dot counts at the very beginning. -/
def solidParts (all : List String) : List String :=
  (all.take 1).filter (· ≠ "") ++
    (all.drop 1).filter fun part => !isIdle part

/-- The components of a path: names and double dots, and a single dot at the beginning. -/
def components (path : String) : List String :=
  solidParts (parts path)

/-- The path so many levels above a path, if there is one. -/
def ancestor? (path : String) : Nat → Option String
  | 0 => some path
  | level + 1 => (ancestor? path level).bind parent?

/-- One path is another without so many of its last components. -/
structure Shortens (above path : String) (level : Nat) : Prop where
  text : above.toList <+: path.toList
  absolute : isAbsolute above = isAbsolute path
  removed :
    ∃ gone,
      gone.length = level ∧ components path = components above ++ gone

theorem Shortens.refl (path : String) : Shortens path path 0 where
  text := List.prefix_refl _
  absolute := rfl
  removed := ⟨[], rfl, (List.append_nil _).symm⟩

theorem Shortens.trans
    {top above path : String} {higher lower : Nat}
    (second : Shortens top above higher) (first : Shortens above path lower) :
    Shortens top path (lower + higher) where
  text := second.text.trans first.text
  absolute := second.absolute.trans first.absolute
  removed := by
    rcases first.removed with ⟨last, lastLength, lower⟩
    rcases second.removed with ⟨middle, middleLength, upper⟩
    refine ⟨middle ++ last, ?_, ?_⟩
    · rw [List.length_append, middleLength, lastLength, Nat.add_comm]
    · rw [lower, upper, List.append_assoc]

/-! ## The parts of a path and of its parent -/

theorem solidParts_append
    {front : List String} (inhabited : front ≠ []) (behind : List String) :
    solidParts (front ++ behind) =
      solidParts front ++ behind.filter fun part => !isIdle part := by
  cases front with
  | nil => exact absurd rfl inhabited
  | cons first others => simp [solidParts]

theorem solidParts_append_idle
    {front idles : List String} (inhabited : front ≠ [])
    (idle : ∀ part ∈ idles, isIdle part = true) :
    solidParts (front ++ idles) = solidParts front := by
  have none : (idles.filter fun part => !isIdle part) = [] := by
    rw [List.filter_eq_nil_iff]
    intro part member
    simp [idle part member]
  rw [solidParts_append inhabited, none, List.append_nil]

theorem dropIdle_ne_nil
    {turned : List String} (inhabited : turned ≠ []) :
    dropIdle turned ≠ [] := by
  fun_induction dropIdle turned with
  | case1 => exact absurd rfl inhabited
  | case2 part => exact List.cons_ne_nil _ _
  | case3 part next rest idle induction => exact induction (by simp)
  | case4 part next rest busy => exact List.cons_ne_nil _ _

/-- What remains either is a single part or begins with one that is not idle. -/
theorem busy_of_dropIdle_eq_cons
    {turned rest : List String} {part next : String}
    (dropped : dropIdle turned = part :: next :: rest) :
    isIdle part = false := by
  fun_induction dropIdle turned with
  | case1 => cases dropped
  | case2 part => cases dropped
  | case3 part next rest idle induction => exact induction dropped
  | case4 part next rest busy =>
      rw [List.cons.injEq] at dropped
      rw [← dropped.1]
      exact Bool.eq_false_iff.mpr busy

/-- Behind what is put together to a path there are idle parts only. -/
theorem exists_idle_of_reverse_dropIdle (all : List String) :
    ∃ idles,
      all = (dropIdle all.reverse).reverse ++ idles ∧
        ∀ part ∈ idles, isIdle part = true := by
  rcases exists_idle_of_dropIdle all.reverse with ⟨idles, split, idle⟩
  refine ⟨idles.reverse, ?_, by simpa using idle⟩
  rw [← List.reverse_append, ← split, List.reverse_reverse]

theorem parts_ne_nil (path : String) : parts path ≠ [] :=
  mt List.map_eq_nil_iff.mp (partsOf_ne_nil _)

theorem intercalate_parts (path : String) :
    "/".intercalate (parts path) = path := by
  apply String.ext
  rw [String.toList_intercalate, map_toList_parts, partsOf_eq_splitOn]
  exact List.intercalate_splitOn separator

/-- The first parts of a path are the beginning of its text. -/
theorem intercalate_prefix
    {front : List String} (inhabited : front ≠ []) (behind : List String) :
    ("/".intercalate front).toList <+:
      ("/".intercalate (front ++ behind)).toList := by
  rw [String.toList_intercalate, String.toList_intercalate]
  induction front with
  | nil => exact absurd rfl inhabited
  | cons first others induction =>
      cases others with
      | nil =>
          cases behind with
          | nil => exact List.prefix_refl _
          | cons next rest =>
              simp only [List.singleton_append, List.map_cons, List.map_nil,
                List.intercalate_cons_cons, List.intercalate_singleton,
                List.append_assoc]
              exact List.prefix_append _ _
      | cons second others =>
          have below := induction (List.cons_ne_nil _ _)
          simp only [List.cons_append, List.map_cons,
            List.intercalate_cons_cons, List.append_assoc] at below ⊢
          exact
            (List.prefix_append_right_inj _).mpr
              ((List.prefix_append_right_inj _).mpr below)

/-- What begins a path, if it is anything, begins with a slash where the path does. -/
theorem isAbsolute_of_prefix
    {above path : String} (inhabited : above ≠ "")
    (start : above.toList <+: path.toList) :
    isAbsolute above = isAbsolute path := by
  rcases start with ⟨rest, whole⟩
  have characters : above.toList ≠ [] := by simpa using inhabited
  rw [isAbsolute, isAbsolute, ← whole,
    List.head?_append_of_ne_nil _ characters]

/-! ## What is put together from the first parts -/

section First

variable {path : String} {first behind : List String}

theorem parts_ofParts_first
    (split : parts path = first ++ behind) (inhabited : first ≠ [])
    (below : first ≠ [""]) :
    parts (ofParts first) = first := by
  apply parts_ofParts _ inhabited below
  intro part member
  apply @separator_not_mem_of_mem_parts path
  rw [split]
  exact List.mem_append_left _ member

theorem components_ofParts
    (split : parts path = first ++ behind) (inhabited : first ≠ []) :
    components (ofParts first) = solidParts first := by
  by_cases top : first = [""]
  · subst top
    decide
  · rw [components, parts_ofParts_first split inhabited top]

theorem ofParts_ne_empty
    (split : parts path = first ++ behind) (inhabited : first ≠ []) :
    ofParts first ≠ "" := by
  by_cases top : first = [""]
  · subst top
    decide
  · intro empty
    have again := parts_ofParts_first split inhabited top
    rw [empty] at again
    exact top again.symm

theorem ofParts_prefix
    (split : parts path = first ++ behind) (inhabited : first ≠ [])
    (more : behind ≠ []) :
    (ofParts first).toList <+: path.toList := by
  have whole : "/".intercalate (first ++ behind) = path := by
    rw [← split, intercalate_parts]
  by_cases top : first = [""]
  · subst top
    cases behind with
    | nil => exact absurd rfl more
    | cons next rest =>
        rw [← whole, String.toList_intercalate]
        simp [ofParts, List.intercalate_cons_cons]
  · have joined : ofParts first = "/".intercalate first := by
      rw [ofParts]
      exact top
    rw [joined, ← whole]
    exact intercalate_prefix inhabited behind

end First

/-! ## The parent -/

/-- The first part of a path that has a component is not absolute by itself. -/
theorem isAbsolute_of_single
    {path part : String} {behind : List String}
    (split : parts path = part :: behind) (inhabited : part ≠ "") :
    isAbsolute path = false := by
  have start : part.toList <+: path.toList := by
    have front :=
      intercalate_prefix (List.cons_ne_nil part []) behind
    rw [List.singleton_append, ← split, intercalate_parts] at front
    simpa [String.toList_intercalate] using front
  rw [← isAbsolute_of_prefix inhabited start]
  apply isAbsolute_of_name
  apply @separator_not_mem_of_mem_parts path
  rw [split]
  exact List.mem_cons_self

/-- A path has a parent unless nothing of it is left to remove. -/
theorem components_eq_nil_of_parent?
    {path : String} (orphan : parent? path = none) :
    components path = [] := by
  rcases exists_idle_of_reverse_dropIdle (parts path) with
    ⟨idles, split, idle⟩
  rw [parent?] at orphan
  split at orphan
  · rename_i turned
    exact
      absurd turned
        (dropIdle_ne_nil (by simpa using parts_ne_nil path))
  · rename_i turned
    rw [reverseParts] at turned
    rw [turned] at split
    rw [components, split, solidParts_append_idle (by simp) idle]
    decide
  · cases orphan
  · cases orphan

/-- The parent of a path is the path without its last component. -/
theorem shortens_of_parent?
    {path above : String} (parent : parent? path = some above) :
    Shortens above path 1 := by
  rcases exists_idle_of_reverse_dropIdle (parts path) with
    ⟨idles, split, idle⟩
  rw [parent?] at parent
  split at parent
  · cases parent
  · cases parent
  · rename_i part named turned
    rw [Option.some.injEq] at parent
    subst parent
    rw [reverseParts] at turned
    rw [turned, List.reverse_singleton] at split
    have inhabited : part ≠ "" := by
      rintro rfl
      exact named rfl
    refine ⟨List.nil_prefix, ?_, [part], rfl, ?_⟩
    · exact (isAbsolute_of_single split inhabited).symm
    · rw [components, split, solidParts_append_idle (by simp) idle]
      simp [solidParts, inhabited, components, parts, partsOf]
  · rename_i last rest several many turned
    rw [Option.some.injEq] at parent
    subst parent
    rcases rest with - | ⟨next, rest⟩
    · exact absurd rfl many
    rw [reverseParts] at turned
    have busy : isIdle last = false := busy_of_dropIdle_eq_cons turned
    rcases exists_idle_of_reverse_dropIdle (next :: rest).reverse with
      ⟨between, divided, idleBetween⟩
    rw [List.reverse_reverse] at divided
    have first : (dropIdle (next :: rest)).reverse ≠ [] :=
      mt List.reverse_eq_nil_iff.mp (dropIdle_ne_nil (List.cons_ne_nil _ _))
    have whole :
        parts path =
          (dropIdle (next :: rest)).reverse ++ (between ++ last :: idles) := by
      rw [split, turned, List.reverse_cons, divided]
      simp only [List.append_assoc, List.singleton_append]
    have start := ofParts_prefix whole first (by simp)
    refine
      ⟨start, isAbsolute_of_prefix (ofParts_ne_empty whole first) start,
        [last], rfl, ?_⟩
    rw [components_ofParts whole first, components, whole,
      ← List.append_assoc,
      solidParts_append (List.append_ne_nil_of_left_ne_nil first between),
      solidParts_append_idle first idleBetween,
      List.filter_cons_of_pos (by simp [busy])]
    simpa using idle

/-! ## All paths above -/

theorem ancestor?_succ (path : String) (level : Nat) :
    ancestor? path (level + 1) =
      (parent? path).bind fun above => ancestor? above level := by
  induction level with
  | zero => simp [ancestor?]
  | succ level induction =>
      rw [ancestor?, induction, Option.bind_assoc]
      rfl

/-- A path above a path is that path without as many components as there are levels between. -/
theorem shortens_of_ancestor?
    {path above : String} {level : Nat}
    (found : ancestor? path level = some above) :
    Shortens above path level := by
  induction level generalizing above with
  | zero =>
      rw [ancestor?, Option.some.injEq] at found
      subst found
      exact Shortens.refl path
  | succ level induction =>
      rw [ancestor?, Option.bind_eq_some_iff] at found
      rcases found with ⟨below, lower, parent⟩
      exact (shortens_of_parent? parent).trans (induction lower)

/-- There is a path above a path for each of its components. -/
theorem isSome_ancestor?_iff (path : String) (level : Nat) :
    (ancestor? path level).isSome = true ↔
      level ≤ (components path).length := by
  induction level generalizing path with
  | zero => simp [ancestor?]
  | succ level induction =>
      rw [ancestor?_succ]
      cases parent : parent? path with
      | none =>
          rw [components_eq_nil_of_parent? parent]
          simp
      | some above =>
          rcases (shortens_of_parent? parent).removed with
            ⟨gone, single, removed⟩
          rw [Option.bind_some, induction, removed, List.length_append,
            single, Nat.add_le_add_iff_right]

end FeatureAtlas.Path
