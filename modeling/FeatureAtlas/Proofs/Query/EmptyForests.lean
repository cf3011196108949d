import FeatureAtlas.CommandLine.Execution
import FeatureAtlas.Proofs.Graph.Cycles
import FeatureAtlas.Proofs.Query.Releases
import FeatureAtlas.Proofs.Store.Ingestion

/-!
# Forests without roots

A root is a feature that no other one of its release depends on.  So a forest
is empty if there is no feature, but also if every feature has a dependent;
then there are features, and cycles among them, that no root leads to.
-/

namespace FeatureAtlas

/-! ## Roots of relations -/

namespace Relations

/-- Without roots, something depends on every member. -/
theorem Lawful.rootPositions_eq_nil_iff
    {relations : Relations} (lawful : relations.Lawful) :
    relations.rootPositions = [] ↔
      ∀ member ∈ relations.members,
        ∃ source, relations.DependsOn source member.id := by
  rw [rootPositions, List.filter_eq_nil_iff]
  constructor
  · intro rootless member listed
    obtain ⟨position, -, inside, here⟩ := lawful.exists_position listed
    have used := rootless position (List.mem_range.mpr inside)
    rw [List.isEmpty_iff] at used
    obtain ⟨source, dependent⟩ := List.exists_mem_of_ne_nil _ used
    refine ⟨relations.idAt source, ?_⟩
    rw [← here]
    exact lawful.dependsOn_of_step (lawful.mem_dependentsAt.mp dependent)
  · intro used position inside empty
    obtain ⟨member, located⟩ := exists_member? (List.mem_range.mp inside)
    obtain ⟨source, depends⟩ := used member (List.mem_of_getElem? located)
    obtain ⟨left, right, -, there, stepped⟩ :=
      (lawful.dependsOn_iff _ _).mp depends
    have same : right = position :=
      lawful.idAt_injective (lawful.target_lt left right stepped)
        (List.mem_range.mp inside)
        (there.trans (idAt_of_member? located).symm)
    rw [List.isEmpty_iff] at empty
    have dependent := lawful.mem_dependentsAt.mpr (same ▸ stepped)
    rw [empty] at dependent
    cases dependent

/-- Members without a root have a cycle among them. -/
theorem Lawful.exists_cycle_of_rootless
    {relations : Relations} (lawful : relations.Lawful)
    (rootless : relations.rootPositions = [])
    {member : Feature} (listed : member ∈ relations.members) :
    ∃ cycle, cycle ∈ relations.cycles := by
  obtain ⟨goal, -, inside, -⟩ := lawful.exists_position listed
  obtain ⟨source, sourceInside, -, none | leads⟩ :=
    lawful.exists_source inside
  · rw [rootPositions, List.filter_eq_nil_iff] at rootless
    have used := rootless source (List.mem_range.mpr sourceInside)
    rw [none] at used
    exact absurd rfl used
  · obtain ⟨cycle, reported, -⟩ := lawful.exists_cycle_of_leads_self leads
    exact ⟨cycle, reported⟩

/-- Dependencies in a scope are told by the features of the scope alone. -/
theorem dependsOn_iff_of_featuresOf
    {policy : ConflictPolicy} {catalog other : List Feature} {scope : Scope}
    {ledger : Ledger} {relations others : Relations}
    (same : featuresOf scope catalog = featuresOf scope other)
    (built : build policy catalog scope ledger = .ok relations)
    (otherBuilt : build policy other scope ledger = .ok others)
    (source target : FeatureId) :
    relations.DependsOn source target ↔ others.DependsOn source target := by
  rw [build_featuresOf] at built otherBuilt
  rw [← same] at otherBuilt
  cases found : build policy (featuresOf scope catalog) scope ledger with
  | error problem =>
      rw [found] at built
      cases built
  | ok narrow =>
      rw [found] at built otherBuilt
      cases built
      cases otherBuilt
      exact Iff.rfl

end Relations

/-! ## Roots of forests -/

namespace Forest

theorem length_roots_foldl_grow (roots : List ScopeRoot) (forest : Forest) :
    (roots.foldl grow forest).roots.length =
      forest.roots.length + roots.length := by
  induction roots generalizing forest with
  | nil => rfl
  | cons root rest induction =>
      rw [List.foldl_cons, induction, grow, List.length_append,
        List.length_singleton, List.length_cons, Nat.add_assoc,
        Nat.add_comm 1]

/-- A forest is empty if none of its scopes has a root. -/
theorem roots_ofScopes_eq_nil_iff (built : List Relations) :
    (ofScopes built).roots = [] ↔
      ∀ relations ∈ built, relations.rootPositions = [] := by
  have counted :
      (ofScopes built).roots.length = (rootsOf built).length := by
    rw [ofScopes, length_roots_foldl_grow]
    exact Nat.zero_add _
  rw [← List.length_eq_zero_iff, counted, List.length_eq_zero_iff,
    List.eq_nil_iff_forall_not_mem]
  constructor
  · intro none relations member
    rw [List.eq_nil_iff_forall_not_mem]
    intro position listed
    exact none ⟨relations, position⟩ ((mem_rootsOf _ _).mpr ⟨member, listed⟩)
  · intro rootless root listed
    obtain ⟨member, position⟩ := (mem_rootsOf _ _).mp listed
    rw [rootless _ member] at position
    cases position

end Forest

namespace Store

/-- The features that an extent reaches. -/
def reached (store : Store) (extent : Extent) : List Feature :=
  store.matching extent.product? extent.version?

/-- The scopes of the features that an extent reaches. -/
def reachedScopes (store : Store) (extent : Extent) : List Scope :=
  FeatureId.scopes ((store.reached extent).map (·.id))

/-- Another feature of its release depends on a feature. -/
def IsUsed (store : Store) (id : FeatureId) : Prop :=
  ∃ relations source,
    store.relations id.scope = .ok relations ∧
      relations.DependsOn source id

section Extents

variable {store : Store} {extent : Extent}

/-- An extent that reaches one feature of a release reaches all of them. -/
theorem featuresOf_reached_of_mem
    {feature : Feature} (member : feature ∈ store.reached extent) :
    featuresOf feature.id.scope (store.reached extent) =
      featuresOf feature.id.scope store.features := by
  have passed := (List.mem_filter.mp member).2
  apply featuresOf_matching_of_passes
  intro id same
  simp only [FeatureId.scope, Scope.mk.injEq] at same
  rw [Extent.passes, same.1, same.2]
  exact passed

/-- Relations of a scope in an extent are about the features of both. -/
theorem Sound.mem_members_reached_iff
    (sound : store.Sound) {policy : ConflictPolicy} {scope : Scope}
    {ledger : Ledger} {relations : Relations}
    (built :
      Relations.build policy (store.reached extent) scope ledger =
        .ok relations)
    (feature : Feature) :
    feature ∈ relations.members ↔
      feature ∈ store.reached extent ∧ feature.id.scope = scope := by
  have distinct : ((store.reached extent).map (·.id)).Nodup :=
    sound.distinct.sublist (List.filter_sublist.map _)
  exact Relations.mem_members_iff_of_distinct built distinct feature

/-- Whether a feature is used can be told in every extent that reaches it. -/
theorem isUsed_iff_of_reached
    {feature : Feature} (member : feature ∈ store.reached extent)
    {relations : Relations}
    (built :
      Relations.build .firstWins (store.reached extent) feature.id.scope
          (store.ledger feature.id.scope) =
        .ok relations) :
    store.IsUsed feature.id ↔
      ∃ source, relations.DependsOn source feature.id := by
  have same := featuresOf_reached_of_mem member
  constructor
  · rintro ⟨whole, source, found, depends⟩
    exact
      ⟨source,
        (Relations.dependsOn_iff_of_featuresOf same built found _ _).mpr
          depends⟩
  · rintro ⟨source, depends⟩
    obtain ⟨whole, found⟩ := exists_relations store feature.id.scope
    exact
      ⟨whole, source, found,
        (Relations.dependsOn_iff_of_featuresOf same built found _ _).mp
          depends⟩

end Extents

/-! ## The relations of an extent -/

/-- The relations of all scopes in an extent, where conflicts are only listed. -/
structure Holds
    (store : Store) (extent : Extent) (relationsAt : Scope → Relations) :
    Prop where
  built :
    ∀ scope,
      Relations.build .firstWins (store.reached extent) scope
          (store.ledger scope) =
        .ok (relationsAt scope)
  sliced :
    (store.slice extent).relations .firstWins =
      .ok ((store.reachedScopes extent).map relationsAt)

theorem exists_holds (store : Store) (extent : Extent) :
    ∃ relationsAt, store.Holds extent relationsAt := by
  choose relationsAt built using fun scope =>
    Relations.exists_build_firstWins (store.reached extent) scope
      (store.ledger scope)
  refine ⟨relationsAt, built, ?_⟩
  rw [Snapshot.relations, slice, List.mapM_map]
  exact mapM_eq_ok_map fun scope _ => built scope

namespace Holds

variable {store : Store} {extent : Extent} {relationsAt : Scope → Relations}

theorem lawful
    (holds : store.Holds extent relationsAt) (scope : Scope) :
    (relationsAt scope).Lawful :=
  Relations.lawful_of_build (holds.built scope)

theorem mem_of_reached
    {feature : Feature} (member : feature ∈ store.reached extent) :
    relationsAt feature.id.scope ∈
      (store.reachedScopes extent).map relationsAt := by
  apply List.mem_map_of_mem
  rw [reachedScopes, FeatureId.scopes, Distinct.mem_ofList, List.map_map]
  exact List.mem_map_of_mem member

/-- The forest is empty if every feature is used. -/
theorem roots_eq_nil_iff
    (holds : store.Holds extent relationsAt) (sound : store.Sound) :
    (Forest.ofScopes ((store.reachedScopes extent).map relationsAt)).roots =
        [] ↔
      ∀ feature ∈ store.reached extent, store.IsUsed feature.id := by
  rw [Forest.roots_ofScopes_eq_nil_iff]
  constructor
  · intro rootless feature member
    rw [isUsed_iff_of_reached member (holds.built _)]
    have inside :=
      (sound.mem_members_reached_iff (holds.built _) feature).mpr
        ⟨member, rfl⟩
    exact
      (holds.lawful _).rootPositions_eq_nil_iff.mp
        (rootless _ (mem_of_reached member)) feature inside
  · intro used relations member
    obtain ⟨scope, -, rfl⟩ := List.mem_map.mp member
    rw [(holds.lawful scope).rootPositions_eq_nil_iff]
    intro feature inside
    obtain ⟨reaches, rfl⟩ :=
      (sound.mem_members_reached_iff (holds.built scope) feature).mp inside
    exact (isUsed_iff_of_reached reaches (holds.built _)).mp (used _ reaches)

/-- If the forest is empty and there is a feature, there is a cycle. -/
theorem exists_cycle_of_empty
    (holds : store.Holds extent relationsAt) (sound : store.Sound)
    (empty :
      (Forest.ofScopes
        ((store.reachedScopes extent).map relationsAt)).roots = [])
    {feature : Feature} (member : feature ∈ store.reached extent) :
    ∃ cycle,
      cycle ∈
        ((store.reachedScopes extent).map relationsAt).flatMap (·.cycles) := by
  rw [Forest.roots_ofScopes_eq_nil_iff] at empty
  have inside :=
    (sound.mem_members_reached_iff (holds.built _) feature).mpr
      ⟨member, rfl⟩
  obtain ⟨cycle, reported⟩ :=
    (holds.lawful _).exists_cycle_of_rootless
      (empty _ (mem_of_reached member)) inside
  exact ⟨cycle, List.mem_flatMap.mpr ⟨_, mem_of_reached member, reported⟩⟩

end Holds

/-! ## Empty forests -/

/-- What an empty forest tells about the extent that it is asked for. -/
structure TellsEmpty
    (store : Store) (extent : Extent) (forest : Forest)
    (cycles : List Cycle) : Prop where
  empty_iff :
    forest.roots = [] ↔
      ∀ feature ∈ store.reached extent, store.IsUsed feature.id
  /-- An empty forest stands for no feature at all unless all features are used. -/
  featureless_iff :
    (forest.roots = [] → store.reached extent = []) ↔
      store.reached extent = [] ∨
        ∃ feature ∈ store.reached extent, ¬store.IsUsed feature.id
  /-- An empty forest that hides features hides a cycle. -/
  cyclic : forest.roots = [] → store.reached extent ≠ [] → cycles ≠ []

theorem Holds.tellsEmpty
    {store : Store} {extent : Extent} {relationsAt : Scope → Relations}
    (holds : store.Holds extent relationsAt) (sound : store.Sound) :
    store.TellsEmpty extent
      (.ofScopes ((store.reachedScopes extent).map relationsAt))
      (((store.reachedScopes extent).map relationsAt).flatMap
        (·.cycles)) where
  empty_iff := holds.roots_eq_nil_iff sound
  featureless_iff := by
    rw [holds.roots_eq_nil_iff sound]
    constructor
    · intro featureless
      by_cases used :
          ∀ feature ∈ store.reached extent, store.IsUsed feature.id
      · exact Or.inl (featureless used)
      · simp only [not_forall, exists_prop] at used
        exact Or.inr used
    · rintro (none | ⟨feature, member, unused⟩) used
      · exact none
      · exact absurd (used feature member) unused
  cyclic := by
    intro empty inhabited acyclic
    obtain ⟨feature, member⟩ := List.exists_mem_of_ne_nil _ inhabited
    obtain ⟨cycle, shown⟩ := holds.exists_cycle_of_empty sound empty member
    rw [acyclic] at shown
    cases shown

/--
Where conflicts are only listed, a forest is empty exactly if every feature in
its extent is used by another one of its release; if there are features, there
are cycles then.
-/
theorem forest_empty_iff_all_used
    (operations : List Operation) (home extent : Extent) :
    ∃ forest cycles,
      ((run operations).service ⟨home, .firstWins⟩).forest extent =
          .ok forest ∧
        ((run operations).service ⟨home, .firstWins⟩).cycles extent =
            .ok cycles ∧
          (run operations).TellsEmpty extent forest cycles := by
  obtain ⟨relationsAt, holds⟩ := exists_holds (run operations) extent
  refine ⟨_, _, ?_, ?_, holds.tellsEmpty (sound_run operations)⟩
  · rw [forest_service, holds.sliced]
    rfl
  · rw [cycles_service, holds.sliced]
    rfl

/-! ### Two features that use each other -/

def ring : List Operation :=
  [.upsert ⟨⟨"Shop", "", "Pay", "1"⟩, ["pay"]⟩,
    .upsert ⟨⟨"Shop", "", "Ship", "1"⟩, ["ship"]⟩,
    .record ⟨"Shop", "1", "pay", ["ship"]⟩,
    .record ⟨"Shop", "1", "ship", ["pay"]⟩]

/-- The forest is empty and no features are announced, though there are two. -/
theorem forest_empty_of_ring :
    ((run ring).service ⟨.all, .firstWins⟩).forest .all = .ok .empty ∧
      ((run ring).matching none none).map (·.id) =
          [⟨"Shop", "", "Pay", "1"⟩, ⟨"Shop", "", "Ship", "1"⟩] ∧
        CommandLine.answerRoots false .standard
            ⟨"/shop", .standard, run ring, []⟩ ⟨none, none⟩ =
          .ok "No features found.\n" := by
  decide

end Store

end FeatureAtlas
