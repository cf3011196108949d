import FeatureAtlas.Proofs.Graph.Enlargement
import FeatureAtlas.Proofs.Query.EmptyForests
import FeatureAtlas.Proofs.Query.Titles

/-!
# Recording only adds

Operations that record calls leave the features of a store alone and add what
their records tell, so nothing that was called is forgotten.  Whatever was
recorded before, queries answer then as they did with fewer roots, and with
cycles and graphs that hold those from before.
-/

namespace FeatureAtlas.Store

/-- Whether an operation records calls and does nothing else. -/
def Operation.onlyRecords : Operation → Bool
  | .upsert _ => false
  | .load _ _ => false
  | _ => true

/-! ## The store behind recordings -/

/-- Behind recordings all records of the valid ones have been entered. -/
theorem foldl_after_of_onlyRecords
    (store : Store) {operations : List Operation}
    (recording :
      ∀ operation ∈ operations, operation.onlyRecords = true) :
    operations.foldl after store =
      ((operations.filter fun operation => operation.IsValid).flatMap
        Operation.records).foldl enter store := by
  have brings :
      ∀ operation ∈ operations,
        operation.loads = false ∧ operation.features = [] := by
    intro operation member
    have only := recording operation member
    cases operation with
    | upsert feature => cases only
    | load disk paths => cases only
    | record | recordInvocations | recordAll | ingest => exact ⟨rfl, rfl⟩
  obtain ⟨accepted, ran⟩ :=
    run_from store fun operation member => (brings operation member).1
  have featureless :
      (operations.filter fun operation => operation.IsValid).flatMap
          Operation.features =
        [] := by
    rw [List.flatMap_eq_nil_iff]
    intro operation member
    exact (brings operation (List.mem_of_mem_filter member)).2
  rw [ran, accepted, featureless]
  rfl

/-- A store has the features of another one, and all that is called there is called. -/
structure CallsMore (store later : Store) : Prop where
  features : later.features = store.features
  calls :
    ∀ scope caller,
      (store.ledger scope).callees caller ⊆
        (later.ledger scope).callees caller

namespace CallsMore

variable {store later : Store}

theorem reached_eq (more : store.CallsMore later) (extent : Extent) :
    later.reached extent = store.reached extent := by
  rw [reached, matching, more.features]
  rfl

theorem reachedScopes_eq (more : store.CallsMore later) (extent : Extent) :
    later.reachedScopes extent = store.reachedScopes extent := by
  rw [reachedScopes, more.reached_eq, reachedScopes]

theorem titled?_eq
    (more : store.CallsMore later) (scope : Scope) (title : String) :
    later.titled? scope title = store.titled? scope title := by
  rw [titled?, more.features, titled?]

/-- The relations of a scope in the whole catalog get larger. -/
theorem exists_within
    (more : store.CallsMore later) (scope : Scope) :
    ∃ earlier wide,
      store.relations scope = .ok earlier ∧
        later.relations scope = .ok wide ∧
          Relations.Within earlier wide ∧
            earlier.Lawful ∧ wide.Lawful := by
  obtain ⟨earlier, built⟩ := exists_relations store scope
  obtain ⟨wide, builtLater⟩ := exists_relations later scope
  have within : Relations.Within earlier wide := by
    refine Relations.within_of_build (more.calls scope) built ?_
    rw [← more.features]
    exact builtLater
  exact
    ⟨earlier, wide, built, builtLater, within,
      Relations.lawful_of_build built, Relations.lawful_of_build builtLater⟩

/-- The relations of all scopes in an extent get larger. -/
theorem within_of_holds
    (more : store.CallsMore later) {extent : Extent}
    {relationsAt relationsLater : Scope → Relations}
    (holds : store.Holds extent relationsAt)
    (holdsLater : later.Holds extent relationsLater) (scope : Scope) :
    Relations.Within (relationsAt scope) (relationsLater scope) := by
  refine
    Relations.within_of_build (more.calls scope) (holds.built scope) ?_
  rw [← more.reached_eq]
  exact holdsLater.built scope

end CallsMore

/-! ## Forests and cycles -/

/-- The relations of the scopes in an extent are of different scopes. -/
theorem Holds.family
    {store : Store} {extent : Extent} {relationsAt : Scope → Relations}
    (holds : store.Holds extent relationsAt) :
    Relations.Family ((store.reachedScopes extent).map relationsAt) := by
  have scopeAt (scope : Scope) : (relationsAt scope).scope = scope :=
    (Relations.builtFrom_of_build (holds.built scope)).scope_eq
  have each :
      ∀ relations ∈ (store.reachedScopes extent).map relationsAt,
        ∃ policy scope ledger,
          Relations.build policy (store.reached extent) scope ledger =
            .ok relations := by
    intro relations member
    obtain ⟨scope, -, rfl⟩ := List.mem_map.mp member
    exact ⟨_, _, _, holds.built scope⟩
  have scopes :
      ((store.reachedScopes extent).map relationsAt).map (·.scope) =
        store.reachedScopes extent := by
    rw [List.map_map]
    exact List.map_id'' scopeAt _
  refine Relations.family_of_built each ?_
  rw [scopes]
  exact Distinct.nodup_ofList _

section Queries

variable {store later : Store} (more : store.CallsMore later)
variable (home : Extent)

include more

/-- Nothing becomes a root of a forest. -/
theorem forest_of_more_calls (extent : Extent) :
    ∃ forest wide,
      (store.service ⟨home, .firstWins⟩).forest extent = .ok forest ∧
        (later.service ⟨home, .firstWins⟩).forest extent = .ok wide ∧
          wide.rootIds ⊆ forest.rootIds := by
  obtain ⟨relationsAt, holds⟩ := exists_holds store extent
  obtain ⟨relationsLater, holdsLater⟩ := exists_holds later extent
  refine
    ⟨.ofScopes ((store.reachedScopes extent).map relationsAt),
      .ofScopes ((later.reachedScopes extent).map relationsLater), ?_, ?_,
      ?_⟩
  · rw [forest_service, holds.sliced]
    rfl
  · rw [forest_service, holdsLater.sliced]
    rfl
  · intro id root
    rw [Forest.rootIds_ofScopes holdsLater.family,
      Forest.mem_map_id_rootsOf holdsLater.family] at root
    rw [Forest.rootIds_ofScopes holds.family,
      Forest.mem_map_id_rootsOf holds.family]
    obtain ⟨relations, member, isRoot⟩ := root
    obtain ⟨scope, reached, rfl⟩ := List.mem_map.mp member
    rw [more.reachedScopes_eq] at reached
    have within := more.within_of_holds holds holdsLater scope
    exact
      ⟨relationsAt scope, List.mem_map_of_mem reached,
        within.isRoot_of_later (holds.lawful scope) (holdsLater.lawful scope)
          isRoot⟩

/-- Every cycle is kept in one that may have more members. -/
theorem cycles_of_more_calls (extent : Extent) :
    ∃ cycles wide,
      (store.service ⟨home, .firstWins⟩).cycles extent = .ok cycles ∧
        (later.service ⟨home, .firstWins⟩).cycles extent = .ok wide ∧
          ∀ cycle ∈ cycles,
            ∃ larger ∈ wide, cycle.members ⊆ larger.members := by
  obtain ⟨relationsAt, holds⟩ := exists_holds store extent
  obtain ⟨relationsLater, holdsLater⟩ := exists_holds later extent
  refine
    ⟨((store.reachedScopes extent).map relationsAt).flatMap (·.cycles),
      ((later.reachedScopes extent).map relationsLater).flatMap (·.cycles),
      ?_, ?_, ?_⟩
  · rw [cycles_service, holds.sliced]
    rfl
  · rw [cycles_service, holdsLater.sliced]
    rfl
  · intro cycle listed
    obtain ⟨relations, member, reported⟩ := List.mem_flatMap.mp listed
    obtain ⟨scope, reached, rfl⟩ := List.mem_map.mp member
    have within := more.within_of_holds holds holdsLater scope
    obtain ⟨larger, kept, inside⟩ :=
      within.exists_cycle (holds.lawful scope) (holdsLater.lawful scope)
        reported
    refine ⟨larger, List.mem_flatMap.mpr ⟨_, ?_, kept⟩, inside⟩
    apply List.mem_map_of_mem
    rw [more.reachedScopes_eq]
    exact reached

/-- The graph that is found by the title of a feature keeps its nodes. -/
theorem graph_of_more_calls
    {feature : Feature} (member : feature ∈ store.features) :
    ∃ graph wide,
      (store.service ⟨home, .firstWins⟩).graph feature.id.scope
            feature.id.title =
          .ok graph ∧
        (later.service ⟨home, .firstWins⟩).graph feature.id.scope
              feature.id.title =
            .ok wide ∧
          graph.arena.features ⊆ wide.arena.features := by
  obtain ⟨earlier, wide, built, builtLater, within, lawful, lawfulLater⟩ :=
    more.exists_within feature.id.scope
  have placeless (relations : Relations) (places : List Nat)
      (id : FeatureId) :
      (relations.withPlaces places).graph id = relations.graph id := by
    rw [Relations.graph_withPlaces]
  rw [Service.graph, withFeature_eq placeless built, Service.graph,
    withFeature_eq placeless builtLater, more.titled?_eq]
  cases titled : store.titled? feature.id.scope feature.id.title with
  | none => exact absurd rfl (titled?_eq_none_iff.mp titled feature member rfl)
  | some first =>
      rw [← byTitle?_eq_titled? built] at titled
      exact
        within.exists_graphs lawful lawfulLater
          (List.mem_of_find?_eq_some titled)

end Queries

/-! ## Recordings -/

/-- What recordings add to a store, and what comes of the answers. -/
structure OnlyAdds
    (store : Store) (operations : List Operation) (later : Store) :
    Prop where
  features : later.features = store.features
  /-- What was called is called, and what the accepted recordings tell. -/
  calls :
    ∀ scope caller callee,
      callee ∈ (later.ledger scope).callees caller ↔
        callee ∈ (store.ledger scope).callees caller ∨
          ∃ operation ∈ operations,
            operation.IsValid ∧
              ∃ record ∈ operation.records,
                record.scope = scope ∧ record.signature = caller ∧
                  callee ∈ record.invoked
  relations :
    ∀ scope,
      ∃ earlier wide,
        store.relations scope = .ok earlier ∧
          later.relations scope = .ok wide ∧
            earlier.Enlarged wide
  forests :
    ∀ home extent,
      ∃ forest wide,
        (store.service ⟨home, .firstWins⟩).forest extent = .ok forest ∧
          (later.service ⟨home, .firstWins⟩).forest extent = .ok wide ∧
            wide.rootIds ⊆ forest.rootIds
  cycles :
    ∀ home extent,
      ∃ cycles wide,
        (store.service ⟨home, .firstWins⟩).cycles extent = .ok cycles ∧
          (later.service ⟨home, .firstWins⟩).cycles extent = .ok wide ∧
            ∀ cycle ∈ cycles,
              ∃ larger ∈ wide, cycle.members ⊆ larger.members
  graphs :
    ∀ home, ∀ feature ∈ store.features,
      ∃ graph wide,
        (store.service ⟨home, .firstWins⟩).graph feature.id.scope
              feature.id.title =
            .ok graph ∧
          (later.service ⟨home, .firstWins⟩).graph feature.id.scope
                feature.id.title =
              .ok wide ∧
            graph.arena.features ⊆ wide.arena.features

/--
However calls are recorded, roots afterwards were roots before, cycles are
contained in cycles, and graphs in graphs.
-/
theorem recording_only_adds
    (store : Store) {operations : List Operation}
    (recording :
      ∀ operation ∈ operations, operation.onlyRecords = true) :
    store.OnlyAdds operations (operations.foldl after store) := by
  have entered := foldl_after_of_onlyRecords store recording
  have features :
      (operations.foldl after store).features = store.features := by
    rw [entered]
    exact features_foldl_enter store _
  have calls (scope : Scope) (caller callee : String) :
      callee ∈ ((operations.foldl after store).ledger scope).callees caller ↔
        callee ∈ (store.ledger scope).callees caller ∨
          ∃ operation ∈ operations,
            operation.IsValid ∧
              ∃ record ∈ operation.records,
                record.scope = scope ∧ record.signature = caller ∧
                  callee ∈ record.invoked := by
    rw [entered, mem_callees_foldl_enter]
    apply or_congr_right
    simp only [List.mem_flatMap, List.mem_filter, decide_eq_true_eq]
    constructor
    · rintro ⟨record, ⟨operation, ⟨member, valid⟩, brought⟩, called⟩
      exact ⟨operation, member, valid, record, brought, called⟩
    · rintro ⟨operation, member, valid, record, brought, called⟩
      exact ⟨record, ⟨operation, ⟨member, valid⟩, brought⟩, called⟩
  have more : store.CallsMore (operations.foldl after store) :=
    ⟨features, fun scope caller callee called =>
      (calls scope caller callee).mpr (Or.inl called)⟩
  refine
    { features := features
      calls := calls
      relations := ?relations
      forests := fun home extent => forest_of_more_calls more home extent
      cycles := fun home extent => cycles_of_more_calls more home extent
      graphs := fun home feature member =>
        graph_of_more_calls more home member }
  case relations =>
    intro scope
    obtain ⟨earlier, wide, built, builtLater, within, lawful, lawfulLater⟩ :=
      more.exists_within scope
    exact
      ⟨earlier, wide, built, builtLater, within.enlarged lawful lawfulLater⟩

/-! ### A ring that is widened -/

/-- Two features that use each other and one that nothing uses. -/
def pairAndOne : Store :=
  run
    [.upsert ⟨⟨"Shop", "", "Pay", "1"⟩, ["pay"]⟩,
      .upsert ⟨⟨"Shop", "", "Ship", "1"⟩, ["ship"]⟩,
      .upsert ⟨⟨"Shop", "", "Pack", "1"⟩, ["pack"]⟩,
      .record ⟨"Shop", "1", "pay", ["ship"]⟩,
      .record ⟨"Shop", "1", "ship", ["pay"]⟩]

/-- The third one joins in, by a report, beside a batch that is rejected. -/
def joining : List Operation :=
  [.recordAll
      [⟨"Shop", "1", "pack", ["print"]⟩, ⟨"Shop", "1", "", ["pack"]⟩],
    .record ⟨"Shop", "1", "ship", ["pack"]⟩,
    .ingest
      ⟨"Shop", "1", [.node "pack" [.node "wrap" [], .node "pay" []]]⟩]

/-- The only root is lost to a cycle, and the graph of it comes to hold all features. -/
theorem recording_only_adds_of_joining :
    (∀ operation ∈ joining, operation.onlyRecords = true) ∧
      pairAndOne.OnlyAdds joining (joining.foldl after pairAndOne) ∧
        ((pairAndOne.service ⟨.all, .firstWins⟩).forest .all).map
              Forest.rootIds =
            .ok [⟨"Shop", "", "Pack", "1"⟩] ∧
          (((joining.foldl after pairAndOne).service
                  ⟨.all, .firstWins⟩).forest .all).map Forest.rootIds =
              .ok [] ∧
            ((joining.foldl after pairAndOne).service
                  ⟨.all, .firstWins⟩).cycles .all =
                .ok
                  [⟨[⟨"Shop", "", "Pay", "1"⟩, ⟨"Shop", "", "Ship", "1"⟩,
                    ⟨"Shop", "", "Pack", "1"⟩]⟩] := by
  have recording :
      ∀ operation ∈ joining, operation.onlyRecords = true := by
    decide
  exact
    ⟨recording, recording_only_adds pairAndOne recording, by decide,
      by decide, by decide⟩

end FeatureAtlas.Store
