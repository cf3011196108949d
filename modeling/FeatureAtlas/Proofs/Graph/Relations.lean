import FeatureAtlas.Proofs.Graph.Inverse
import FeatureAtlas.Proofs.Graph.Membership
import FeatureAtlas.Proofs.Graph.Ownership
import Mathlib.Logic.Relation

/-!
# Laws of the one-hop relations

Whatever is built from a catalog and a ledger obeys a few laws: identities
and positions determine each other, dependencies stay among the members and
never lead back to their source, and dependents are the exact inverse.  All
later results about graphs, forests and cycles use these laws and not the way
in which the relations were built.
-/

namespace FeatureAtlas.Relations

/-- What every collection of relations that was built from a catalog obeys. -/
structure Lawful (relations : Relations) : Prop where
  distinct : (relations.members.map (·.id)).Nodup
  located :
    ∀ id position,
      relations.membership.positions.get? id = some position ↔
        (relations.member? position).map (·.id) = some id
  within : ∀ feature ∈ relations.members, feature.id.scope = relations.scope
  target_lt :
    ∀ source, ∀ target ∈ relations.dependenciesAt source,
      target < relations.size
  source_lt :
    ∀ source, ∀ _target ∈ relations.dependenciesAt source,
      source < relations.size
  irreflexive : ∀ source, source ∉ relations.dependenciesAt source
  nodup : ∀ source, (relations.dependenciesAt source).Nodup
  dependents_eq :
    ∀ target,
      relations.dependentsAt target =
        (List.range relations.size).filter fun source =>
          target ∈ relations.dependenciesAt source

/-! ## Everything that is built is lawful -/

theorem mem_resolve
    {ownership : Ownership} {ledger : Ledger}
    {feature : Feature} {position target : Nat}
    (member : target ∈ resolve ownership ledger (feature, position)) :
    target ≠ position ∧
      ∃ signature, ownership.position? signature = some target := by
  simp only [resolve, Distinct.mem_ofList, List.mem_filter,
    List.mem_filterMap, decide_eq_true_eq] at member
  rcases member with ⟨⟨signature, -, owned⟩, other⟩
  exact ⟨other, signature, owned⟩

theorem nodup_resolve
    (ownership : Ownership) (ledger : Ledger) (entry : Feature × Nat) :
    (resolve ownership ledger entry).Nodup :=
  Distinct.nodup_ofList _

/-- The parts of relations that were built from a catalog and a ledger. -/
structure BuiltFrom
    (policy : ConflictPolicy) (catalog : List Feature) (scope : Scope)
    (ledger : Ledger) (relations : Relations) : Prop where
  scope_eq : relations.scope = scope
  membership_eq : relations.membership = Membership.ofCatalog scope catalog
  owned :
    Ownership.build policy relations.members = .ok relations.ownership
  dependencies_eq :
    relations.dependencies =
      relations.members.zipIdx.map (resolve relations.ownership ledger)
  dependents_eq : relations.dependents = invert relations.dependencies

theorem builtFrom_of_build
    {policy : ConflictPolicy} {catalog : List Feature} {scope : Scope}
    {ledger : Ledger} {relations : Relations}
    (built : build policy catalog scope ledger = .ok relations) :
    BuiltFrom policy catalog scope ledger relations := by
  dsimp only [build] at built
  cases owned :
      Ownership.build policy (Membership.ofCatalog scope catalog).members with
  | error problem =>
      rw [owned] at built
      cases built
  | ok ownership =>
      rw [owned] at built
      cases built
      exact ⟨rfl, rfl, owned, rfl, rfl⟩

/-- Where conflicts are only listed, every catalog has relations. -/
theorem exists_build_firstWins
    (catalog : List Feature) (scope : Scope) (ledger : Ledger) :
    ∃ relations, build .firstWins catalog scope ledger = .ok relations := by
  rcases
    Ownership.exists_build_firstWins
      (Membership.ofCatalog scope catalog).members with
    ⟨ownership, owned⟩
  rw [build, owned]
  exact ⟨_, rfl⟩

/-- The dependencies at a position are the resolved ones of the member there. -/
theorem BuiltFrom.dependenciesAt_eq
    {policy : ConflictPolicy} {catalog : List Feature} {scope : Scope}
    {ledger : Ledger} {relations : Relations}
    (parts : BuiltFrom policy catalog scope ledger relations)
    (position : Nat) :
    relations.dependenciesAt position =
      ((relations.member? position).map fun feature =>
        resolve relations.ownership ledger (feature, position)).getD [] := by
  rw [dependenciesAt, parts.dependencies_eq, List.getElem?_map,
    List.getElem?_zipIdx, member?, Option.map_map, Nat.zero_add]
  rfl

/-- What a built member depends on is resolved. -/
theorem BuiltFrom.mem_dependenciesAt
    {policy : ConflictPolicy} {catalog : List Feature} {scope : Scope}
    {ledger : Ledger} {relations : Relations}
    (parts : BuiltFrom policy catalog scope ledger relations)
    {source target : Nat}
    (member : target ∈ relations.dependenciesAt source) :
    ∃ feature,
      relations.member? source = some feature ∧
        target ∈ resolve relations.ownership ledger (feature, source) := by
  rw [parts.dependenciesAt_eq] at member
  cases found : relations.member? source with
  | none =>
      rw [found] at member
      cases member
  | some feature =>
      rw [found] at member
      exact ⟨feature, rfl, member⟩

/-- The inverse of in-range lists without repeats is the table of dependents. -/
theorem dependentsAt_eq_filter
    {relations : Relations}
    (inverted : relations.dependents = invert relations.dependencies)
    (sized : relations.dependencies.length = relations.size)
    (distinct : ∀ targets ∈ relations.dependencies, targets.Nodup)
    (inRange :
      ∀ source, ∀ target ∈ relations.dependenciesAt source,
        target < relations.size)
    (target : Nat) :
    relations.dependentsAt target =
      (List.range relations.size).filter fun source =>
        target ∈ relations.dependenciesAt source := by
  rw [dependentsAt, inverted, getElem?_invert distinct, sized]
  cases found : relations.dependencies[target]? with
  | some targets => rfl
  | none =>
      have outside : relations.size ≤ target := by
        rw [← sized]
        exact List.getElem?_eq_none_iff.mp found
      have nowhere : ∀ source, target ∉ relations.dependenciesAt source :=
        fun source member =>
          Nat.not_lt.mpr outside (inRange source target member)
      simp [nowhere]

/-- Relations that were built from a catalog are lawful. -/
theorem lawful_of_build
    {policy : ConflictPolicy} {catalog : List Feature} {scope : Scope}
    {ledger : Ledger} {relations : Relations}
    (built : build policy catalog scope ledger = .ok relations) :
    relations.Lawful := by
  have parts := builtFrom_of_build built
  obtain ⟨entries, enlisted⟩ := Membership.exists_enlisted scope catalog
  rw [← parts.membership_eq] at enlisted
  have memberIds :
      relations.members.map (·.id) = entries.map (·.1.id) := by
    simp [members, enlisted.members_eq]
  have lists :
      ∀ targets ∈ relations.dependencies, targets.Nodup := by
    intro targets member
    rw [parts.dependencies_eq] at member
    rcases List.mem_map.mp member with ⟨entry, -, rfl⟩
    exact nodup_resolve relations.ownership ledger entry
  have inRange :
      ∀ source, ∀ target ∈ relations.dependenciesAt source,
        target < relations.size := by
    intro source target member
    obtain ⟨feature, -, resolved⟩ :=
      parts.mem_dependenciesAt member
    obtain ⟨-, signature, found⟩ := mem_resolve resolved
    exact Ownership.position?_lt parts.owned found
  refine
    { distinct := memberIds ▸ enlisted.distinct
      located := ?located
      within := ?within
      target_lt := inRange
      source_lt := ?source_lt
      irreflexive := ?irreflexive
      nodup := ?nodup
      dependents_eq :=
        dependentsAt_eq_filter parts.dependents_eq ?sized lists inRange }
  case located =>
    intro id position
    rw [enlisted.located, ← memberIds, List.getElem?_map]
    rfl
  case within =>
    intro feature member
    simp only [members, enlisted.members_eq, List.mem_map] at member
    rcases member with ⟨entry, entryIn, rfl⟩
    rw [parts.scope_eq]
    exact enlisted.within entry entryIn
  case source_lt =>
    intro source target member
    obtain ⟨feature, found, -⟩ :=
      parts.mem_dependenciesAt member
    exact (List.getElem?_eq_some_iff.mp found).1
  case irreflexive =>
    intro source member
    obtain ⟨feature, -, resolved⟩ :=
      parts.mem_dependenciesAt member
    exact (mem_resolve resolved).1 rfl
  case nodup =>
    intro source
    rw [dependenciesAt]
    cases found : relations.dependencies[source]? with
    | none => exact List.nodup_nil
    | some targets => exact lists targets (List.mem_of_getElem? found)
  case sized =>
    simp [parts.dependencies_eq, size]

end FeatureAtlas.Relations
