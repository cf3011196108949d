import FeatureAtlas.Proofs.Graph.Reachability

/-!
# Classes of members

Members that lead to each other are in one class.  The classes of two members
or more are the groups, listed by their first members; no position is in two
of them, and two different ones are in one group exactly if each leads to the
other.  The cycles that are reported are the groups with their identities.
-/

namespace FeatureAtlas.Relations

/-! ## Classes of members that depend on each other -/

/-- Each of two members leads to the other. -/
def Mutual (relations : Relations) (left right : Nat) : Prop :=
  relations.Leads left right ∧ relations.Leads right left

/-- What every member leads to. -/
def reach (relations : Relations) : List (List Nat) :=
  (List.range relations.size).map relations.reachable

namespace Lawful

variable {relations : Relations}

theorem leads_lt
    (lawful : relations.Lawful) {source target : Nat}
    (leads : relations.Leads source target) :
    source < relations.size ∧ target < relations.size := by
  obtain ⟨next, first, -⟩ := Relation.TransGen.head'_iff.mp leads
  obtain ⟨previous, -, last⟩ := Relation.TransGen.tail'_iff.mp leads
  exact
    ⟨lawful.source_lt source next first,
      lawful.target_lt previous target last⟩

theorem mem_reach_getElem?
    (lawful : relations.Lawful) {source : Nat}
    (inside : source < relations.size) (target : Nat) :
    target ∈ relations.reach[source]?.getD [] ↔
      relations.Leads source target := by
  rw [reach, List.getElem?_map, List.getElem?_range inside]
  exact lawful.mem_reachable_iff source target

/-- The class of a member holds it and the members that it leads to and that lead to it. -/
theorem mem_classAt
    (lawful : relations.Lawful) {position : Nat}
    (inside : position < relations.size) (other : Nat) :
    other ∈ relations.classAt relations.reach position ↔
      other < relations.size ∧
        (other = position ∨ relations.Mutual position other) := by
  rw [classAt, List.mem_filter, List.mem_range, decide_eq_true_iff]
  refine and_congr_right ?_
  intro otherInside
  rw [lawful.mem_reach_getElem? inside,
    lawful.mem_reach_getElem? otherInside]
  rfl

/-- Members of one class have the same class. -/
theorem classAt_eq_of_mem
    (lawful : relations.Lawful) {position other : Nat}
    (inside : position < relations.size)
    (together : other ∈ relations.classAt relations.reach position) :
    relations.classAt relations.reach other =
      relations.classAt relations.reach position := by
  obtain ⟨otherInside, related⟩ :=
    (lawful.mem_classAt inside other).mp together
  rcases related with rfl | ⟨forward, backward⟩
  · rfl
  · refine List.filter_congr ?_
    intro third thirdIn
    have thirdInside := List.mem_range.mp thirdIn
    rw [decide_eq_decide, lawful.mem_reach_getElem? inside,
      lawful.mem_reach_getElem? otherInside,
      lawful.mem_reach_getElem? thirdInside,
      lawful.mem_reach_getElem? thirdInside]
    constructor
    · rintro (rfl | ⟨onward, back⟩)
      · exact Or.inr ⟨forward, backward⟩
      · exact Or.inr ⟨forward.trans onward, back.trans backward⟩
    · rintro (rfl | ⟨onward, back⟩)
      · exact Or.inr ⟨backward, forward⟩
      · exact Or.inr ⟨backward.trans onward, back.trans forward⟩

end Lawful

/-! ## Classes of two members or more -/

/-- The class of the member at a position if it is the first of several in it. -/
def groupAt? (relations : Relations) (position : Nat) : Option (List Nat) :=
  let group := relations.classAt relations.reach position
  if group.head? = some position ∧ 2 ≤ group.length then some group
  else none

/-- The classes of two members or more, by their first members. -/
def groups (relations : Relations) : List (List Nat) :=
  (List.range relations.size).filterMap relations.groupAt?

theorem cycles_eq_map_groups (relations : Relations) :
    relations.cycles =
      relations.groups.map fun group => ⟨group.map relations.idAt⟩ := by
  rw [groups, List.map_filterMap, cycles, ← reach]
  refine List.filterMap_congr ?_
  intro position _
  rw [cycleAt?, groupAt?]
  split <;> rfl

theorem groupAt?_eq_some
    {relations : Relations} {position : Nat} {group : List Nat}
    (found : relations.groupAt? position = some group) :
    group = relations.classAt relations.reach position ∧
      group.head? = some position ∧ 2 ≤ group.length := by
  rw [groupAt?] at found
  split at found
  · rename_i first
    cases found
    exact ⟨rfl, first⟩
  · cases found

theorem pairwise_classAt (relations : Relations) (position : Nat) :
    (relations.classAt relations.reach position).Pairwise (· < ·) :=
  List.pairwise_lt_range.filter _

/-- The first of one list comes before the first of another. -/
def HeadsAscend (left right : List Nat) : Prop :=
  ∀ first ∈ left.head?, ∀ second ∈ right.head?, first < second

theorem pairwise_groups (relations : Relations) :
    relations.groups.Pairwise HeadsAscend := by
  rw [groups, List.pairwise_filterMap]
  refine List.pairwise_lt_range.imp ?_
  intro left right before leftGroup leftFound rightGroup rightFound
  obtain ⟨-, leftFirst, -⟩ := groupAt?_eq_some leftFound
  obtain ⟨-, rightFirst, -⟩ := groupAt?_eq_some rightFound
  intro first here second there
  rw [leftFirst, Option.mem_some_iff] at here
  rw [rightFirst, Option.mem_some_iff] at there
  rwa [← here, ← there]

/-- The members of the cycles are those at the positions of the groups. -/
theorem mem_cycles_iff_groups
    (relations : Relations) (cycle : Cycle) :
    cycle ∈ relations.cycles ↔
      ∃ group ∈ relations.groups, cycle.members = group.map relations.idAt := by
  rw [cycles_eq_map_groups, List.mem_map]
  constructor
  · rintro ⟨group, grouped, rfl⟩
    exact ⟨group, grouped, rfl⟩
  · rintro ⟨group, grouped, same⟩
    exact ⟨group, grouped, congrArg Cycle.mk same.symm⟩

namespace Lawful

variable {relations : Relations}

theorem mem_classAt_self
    (lawful : relations.Lawful) {position : Nat}
    (inside : position < relations.size) :
    position ∈ relations.classAt relations.reach position :=
  (lawful.mem_classAt inside position).mpr ⟨inside, Or.inl rfl⟩

/-- A group is the class of any of its members, and has several of them. -/
theorem mem_groups_iff
    (lawful : relations.Lawful) {position : Nat} {group : List Nat}
    (inside : position < relations.size) (member : position ∈ group) :
    group ∈ relations.groups ↔
      group = relations.classAt relations.reach position ∧
        2 ≤ group.length := by
  rw [groups, List.mem_filterMap]
  constructor
  · rintro ⟨first, firstIn, found⟩
    obtain ⟨same, -, several⟩ := groupAt?_eq_some found
    subst same
    exact
      ⟨(lawful.classAt_eq_of_mem (List.mem_range.mp firstIn) member).symm,
        several⟩
  · rintro ⟨rfl, several⟩
    obtain ⟨first, leading⟩ :=
      Option.ne_none_iff_exists'.mp
        (List.head?_eq_none_iff.not.mpr (List.ne_nil_of_mem member))
    have firstIn := List.mem_of_head? leading
    have firstInside := ((lawful.mem_classAt inside first).mp firstIn).1
    refine ⟨first, List.mem_range.mpr firstInside, ?_⟩
    rw [groupAt?, lawful.classAt_eq_of_mem inside firstIn]
    exact if_pos ⟨leading, several⟩

theorem lt_size_of_mem_groups
    (lawful : relations.Lawful) {group : List Nat}
    (grouped : group ∈ relations.groups) {position : Nat}
    (member : position ∈ group) :
    position < relations.size := by
  obtain ⟨first, firstIn, found⟩ := List.mem_filterMap.mp grouped
  obtain ⟨rfl, -, -⟩ := groupAt?_eq_some found
  exact ((lawful.mem_classAt (List.mem_range.mp firstIn) position).mp member).1

/-- Two positions are in one group exactly if they are different and each leads to the other. -/
theorem exists_group_iff
    (lawful : relations.Lawful) {left right : Nat} (differ : left ≠ right) :
    (∃ group ∈ relations.groups, left ∈ group ∧ right ∈ group) ↔
      relations.Mutual left right := by
  constructor
  · rintro ⟨group, grouped, leftIn, rightIn⟩
    have inside := lawful.lt_size_of_mem_groups grouped leftIn
    obtain ⟨rfl, -⟩ := (lawful.mem_groups_iff inside leftIn).mp grouped
    obtain ⟨-, same | both⟩ := (lawful.mem_classAt inside right).mp rightIn
    · exact absurd same.symm differ
    · exact both
  · intro both
    obtain ⟨inside, otherInside⟩ := lawful.leads_lt both.1
    have leftIn := lawful.mem_classAt_self inside
    have rightIn :=
      (lawful.mem_classAt inside right).mpr ⟨otherInside, Or.inr both⟩
    have several :
        2 ≤ (relations.classAt relations.reach left).length := by
      have pair : [left, right].Nodup := by simpa using differ
      refine pair.length_le_of_subset ?_
      simpa using ⟨leftIn, rightIn⟩
    exact
      ⟨_, (lawful.mem_groups_iff inside leftIn).mpr ⟨rfl, several⟩, leftIn,
        rightIn⟩

/-- Groups that share a position are the same. -/
theorem group_eq_of_mem
    (lawful : relations.Lawful) {first second : List Nat}
    (firstIn : first ∈ relations.groups)
    (secondIn : second ∈ relations.groups) {position : Nat}
    (here : position ∈ first) (there : position ∈ second) :
    first = second := by
  have inside := lawful.lt_size_of_mem_groups firstIn here
  obtain ⟨left, -⟩ := (lawful.mem_groups_iff inside here).mp firstIn
  obtain ⟨right, -⟩ := (lawful.mem_groups_iff inside there).mp secondIn
  rw [left, right]

theorem exists_head_of_mem_groups
    {group : List Nat} (grouped : group ∈ relations.groups) :
    ∃ first, group.head? = some first := by
  obtain ⟨first, -, found⟩ := List.mem_filterMap.mp grouped
  exact ⟨first, (groupAt?_eq_some found).2.1⟩

/-- No position is in two groups, or in one of them twice. -/
theorem nodup_flatten_groups (lawful : relations.Lawful) :
    relations.groups.flatten.Nodup := by
  rw [List.nodup_flatten]
  constructor
  · intro group grouped
    obtain ⟨first, -, found⟩ := List.mem_filterMap.mp grouped
    obtain ⟨rfl, -, -⟩ := groupAt?_eq_some found
    exact (pairwise_classAt relations first).imp Nat.ne_of_lt
  · refine relations.pairwise_groups.imp_of_mem ?_
    intro left right leftIn rightIn ascend position here there
    have same := lawful.group_eq_of_mem leftIn rightIn here there
    subst same
    obtain ⟨first, leading⟩ := exists_head_of_mem_groups leftIn
    exact Nat.lt_irrefl _ (ascend first leading first leading)

end Lawful

end FeatureAtlas.Relations
