import FeatureAtlas.Proofs.Graph.Relations

/-!
# Dependence between features

Queries name features by identity, the relations name members by position.
This module defines dependence, adjacency and connection on identities, by
means of the two one-hop queries alone, and translates them to positions.
-/

namespace FeatureAtlas.Relations

/-- One feature is among the direct dependencies of another. -/
def DependsOn (relations : Relations) (source target : FeatureId) : Prop :=
  ∃ features,
    relations.directDependencies source = .ok features ∧
      target ∈ features.map (·.id)

/-- Of two features one depends directly on the other. -/
def Adjacent (relations : Relations) (left right : FeatureId) : Prop :=
  relations.DependsOn left right ∨ relations.DependsOn right left

/-- A chain of direct dependencies, followed in either direction, joins two features. -/
def Connected (relations : Relations) : FeatureId → FeatureId → Prop :=
  Relation.ReflTransGen relations.Adjacent

theorem Adjacent.symm
    {relations : Relations} {left right : FeatureId}
    (adjacent : relations.Adjacent left right) :
    relations.Adjacent right left :=
  Or.symm adjacent

/-! ## Positions and identities -/

theorem idAt_of_member?
    {relations : Relations} {position : Nat} {feature : Feature}
    (found : relations.member? position = some feature) :
    relations.idAt position = feature.id := by
  simp [idAt, found]

theorem exists_member?
    {relations : Relations} {position : Nat}
    (inside : position < relations.size) :
    ∃ feature, relations.member? position = some feature :=
  ⟨relations.members.get ⟨position, inside⟩, List.getElem?_eq_getElem inside⟩

theorem map_id_member?
    {relations : Relations} {position : Nat}
    (inside : position < relations.size) :
    (relations.member? position).map (·.id) =
      some (relations.idAt position) := by
  obtain ⟨feature, found⟩ := exists_member? inside
  rw [found, idAt_of_member? found]
  rfl

theorem lt_size_of_map_id
    {relations : Relations} {position : Nat} {id : FeatureId}
    (found : (relations.member? position).map (·.id) = some id) :
    position < relations.size := by
  rcases Option.map_eq_some_iff.mp found with ⟨feature, located, -⟩
  exact (List.getElem?_eq_some_iff.mp located).1

theorem mem_members_iff
    {relations : Relations} {feature : Feature} :
    feature ∈ relations.members ↔
      ∃ position, relations.member? position = some feature :=
  List.mem_iff_getElem?

/-- The features at positions within the members have the identities there. -/
theorem map_id_filterMap_member?
    {relations : Relations} {positions : List Nat}
    (inside : ∀ position ∈ positions, position < relations.size) :
    (positions.filterMap relations.member?).map (·.id) =
      positions.map relations.idAt := by
  induction positions with
  | nil => rfl
  | cons position rest induction =>
      have here := inside position (by simp)
      have others : ∀ position ∈ rest, position < relations.size :=
        fun position member => inside position (by simp [member])
      obtain ⟨feature, found⟩ := exists_member? here
      rw [List.filterMap_cons_some found, List.map_cons, List.map_cons,
        induction others, idAt_of_member? found]

namespace Lawful

variable {relations : Relations}

theorem idAt_injective
    (lawful : relations.Lawful) {left right : Nat}
    (leftInside : left < relations.size)
    (rightInside : right < relations.size)
    (same : relations.idAt left = relations.idAt right) :
    left = right := by
  have leftFound :=
    (lawful.located _ left).mpr (map_id_member? leftInside)
  have rightFound :=
    (lawful.located _ right).mpr (map_id_member? rightInside)
  rw [same, rightFound] at leftFound
  exact (Option.some.inj leftFound).symm

/-- The position of an identity is the one where it stands. -/
theorem position_eq_ok_iff
    (lawful : relations.Lawful) (id : FeatureId) (position : Nat) :
    relations.position id = .ok position ↔
      position < relations.size ∧ relations.idAt position = id := by
  have looked :
      relations.position id = .ok position ↔
        relations.membership.positions.get? id = some position := by
    rw [Relations.position]
    cases relations.membership.positions.get? id <;> simp
  rw [looked, lawful.located]
  constructor
  · intro found
    have inside := lt_size_of_map_id found
    rw [map_id_member? inside] at found
    exact ⟨inside, Option.some.inj found⟩
  · rintro ⟨inside, rfl⟩
    exact map_id_member? inside

theorem position_idAt
    (lawful : relations.Lawful) {position : Nat}
    (inside : position < relations.size) :
    relations.position (relations.idAt position) = .ok position :=
  (lawful.position_eq_ok_iff _ position).mpr ⟨inside, rfl⟩

/-- Every member has a position. -/
theorem exists_position
    (lawful : relations.Lawful) {feature : Feature}
    (member : feature ∈ relations.members) :
    ∃ position,
      relations.position feature.id = .ok position ∧
        position < relations.size ∧
          relations.idAt position = feature.id := by
  rcases mem_members_iff.mp member with ⟨position, found⟩
  have inside : position < relations.size :=
    (List.getElem?_eq_some_iff.mp found).1
  have here := idAt_of_member? found
  exact ⟨position, here ▸ lawful.position_idAt inside, inside, here⟩

/-- A member is found, so what is asked at its position is answered. -/
theorem exists_answer
    {α : Type} (lawful : relations.Lawful) (value : Nat → α)
    {feature : Feature} (member : feature ∈ relations.members) :
    ∃ answer,
      ((relations.position feature.id).bind fun position =>
          .ok (value position)) =
        .ok answer := by
  obtain ⟨position, placed, -, -⟩ := lawful.exists_position member
  rw [placed]
  exact ⟨_, rfl⟩

/-- An identity that no member has is reported as not found. -/
theorem position_eq_error
    (lawful : relations.Lawful) {id : FeatureId}
    (absent : ∀ feature ∈ relations.members, feature.id ≠ id) :
    relations.position id = .error (.featureNotFound id.scope id.title) := by
  rw [Relations.position]
  cases found : relations.membership.positions.get? id with
  | none => rfl
  | some position =>
      have standing := (lawful.located id position).mp found
      rcases Option.map_eq_some_iff.mp standing with ⟨feature, located, same⟩
      exact absurd same (absent feature (List.mem_of_getElem? located))

theorem idAt_scope
    (lawful : relations.Lawful) {position : Nat}
    (inside : position < relations.size) :
    (relations.idAt position).scope = relations.scope := by
  obtain ⟨feature, found⟩ := exists_member? inside
  rw [idAt_of_member? found]
  exact lawful.within feature (List.mem_of_getElem? found)

/-! ## One-hop queries by position -/

theorem mem_dependentsAt
    (lawful : relations.Lawful) {source target : Nat} :
    source ∈ relations.dependentsAt target ↔
      target ∈ relations.dependenciesAt source := by
  rw [lawful.dependents_eq target, List.mem_filter, List.mem_range]
  constructor
  · rintro ⟨-, listed⟩
    exact of_decide_eq_true listed
  · intro listed
    exact ⟨lawful.source_lt source target listed, decide_eq_true listed⟩

theorem dependent_lt
    (lawful : relations.Lawful) {source target : Nat}
    (member : source ∈ relations.dependentsAt target) :
    source < relations.size :=
  lawful.source_lt source target (lawful.mem_dependentsAt.mp member)

/-- The direct dependencies of a member are those at its position. -/
theorem directDependencies_idAt
    (lawful : relations.Lawful) {position : Nat}
    (inside : position < relations.size) :
    ∃ features,
      relations.directDependencies (relations.idAt position) =
          .ok features ∧
        features.map (·.id) =
          (relations.dependenciesAt position).map relations.idAt := by
  refine
    ⟨(relations.dependenciesAt position).filterMap relations.member?, ?_,
      map_id_filterMap_member? (lawful.target_lt position)⟩
  rw [directDependencies, lawful.position_idAt inside]
  rfl

/-- The direct dependents of a member are those at its position. -/
theorem directDependents_idAt
    (lawful : relations.Lawful) {position : Nat}
    (inside : position < relations.size) :
    ∃ features,
      relations.directDependents (relations.idAt position) =
          .ok features ∧
        features.map (·.id) =
          (relations.dependentsAt position).map relations.idAt := by
  refine
    ⟨(relations.dependentsAt position).filterMap relations.member?, ?_,
      map_id_filterMap_member? fun source member =>
        lawful.dependent_lt member⟩
  rw [directDependents, lawful.position_idAt inside]
  rfl

/-- Dependence between identities is dependence between positions. -/
theorem dependsOn_iff
    (lawful : relations.Lawful) (source target : FeatureId) :
    relations.DependsOn source target ↔
      ∃ left right,
        relations.idAt left = source ∧ relations.idAt right = target ∧
          right ∈ relations.dependenciesAt left := by
  constructor
  · rintro ⟨features, answered, listed⟩
    cases placed : relations.position source with
    | error problem =>
        rw [directDependencies, placed] at answered
        cases answered
    | ok left =>
        obtain ⟨inside, rfl⟩ :=
          (lawful.position_eq_ok_iff source left).mp placed
        obtain ⟨others, again, ids⟩ := lawful.directDependencies_idAt inside
        rw [answered, Except.ok.injEq] at again
        subst again
        rw [ids] at listed
        rcases List.mem_map.mp listed with ⟨right, member, there⟩
        exact ⟨left, right, rfl, there, member⟩
  · rintro ⟨left, right, rfl, rfl, member⟩
    obtain ⟨features, answered, ids⟩ :=
      lawful.directDependencies_idAt (lawful.source_lt left right member)
    exact ⟨features, answered, ids ▸ List.mem_map_of_mem member⟩

/-- What is adjacent to a member is found in one of its two lists. -/
theorem adjacent_idAt_iff
    (lawful : relations.Lawful) {position : Nat}
    (inside : position < relations.size) (other : FeatureId) :
    relations.Adjacent (relations.idAt position) other ↔
      ∃ neighbour,
        relations.idAt neighbour = other ∧
          (neighbour ∈ relations.dependenciesAt position ∨
            neighbour ∈ relations.dependentsAt position) := by
  constructor
  · rintro (forward | backward)
    · obtain ⟨left, right, same, rfl, member⟩ :=
        (lawful.dependsOn_iff _ _).mp forward
      have here :=
        lawful.idAt_injective (lawful.source_lt left right member) inside same
      exact ⟨right, rfl, Or.inl (here ▸ member)⟩
    · obtain ⟨left, right, rfl, same, member⟩ :=
        (lawful.dependsOn_iff _ _).mp backward
      have here :=
        lawful.idAt_injective (lawful.target_lt left right member) inside same
      exact ⟨left, rfl, Or.inr (lawful.mem_dependentsAt.mpr (here ▸ member))⟩
  · rintro ⟨neighbour, rfl, dependency | dependent⟩
    · exact Or.inl
        ((lawful.dependsOn_iff _ _).mpr
          ⟨position, neighbour, rfl, rfl, dependency⟩)
    · exact Or.inr
        ((lawful.dependsOn_iff _ _).mpr
          ⟨neighbour, position, rfl, rfl,
            lawful.mem_dependentsAt.mp dependent⟩)

end Lawful

/-- A member that nothing depends on is a root. -/
theorem mem_roots_of_dependentsAt_eq_nil
    {relations : Relations} {position : Nat} {feature : Feature}
    (located : relations.member? position = some feature)
    (none : relations.dependentsAt position = []) :
    feature ∈ relations.roots := by
  have inside : position < relations.size :=
    (List.getElem?_eq_some_iff.mp located).1
  refine List.mem_filterMap.mpr ⟨position, ?_, located⟩
  simpa [rootPositions, none] using inside

end FeatureAtlas.Relations
