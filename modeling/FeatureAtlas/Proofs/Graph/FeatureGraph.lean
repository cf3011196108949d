import FeatureAtlas.Proofs.Graph.Expansion

/-!
# The graph around one feature

The graph of a member spans its component: the features that chains of direct
dependencies, followed in either direction, connect to it.  Each of them has
one node, and every node carries the answers to the two one-hop queries.  The
expansion itself is described without a bound on its steps, so the theorem
also says that it ends.
-/

namespace FeatureAtlas

/-- A graph holds one complete node for each member that is connected to a feature. -/
structure FeatureGraph.Spans
    (graph : FeatureGraph) (relations : Relations) (id : FeatureId) :
    Prop where
  root : graph.arena.features[graph.root]? = some id
  once : graph.arena.features.Nodup
  exact :
    ∀ other,
      other ∈ graph.arena.features ↔
        (∃ member ∈ relations.members, member.id = other) ∧
          relations.Connected id other
  complete :
    ∀ node ∈ graph.arena.nodes, graph.arena.Answers relations node

namespace Relations

/-- Whatever is connected to a member is a member. -/
theorem Lawful.exists_member_of_connected
    {relations : Relations} (lawful : relations.Lawful) {feature : Feature}
    (member : feature ∈ relations.members) {other : FeatureId}
    (connected : relations.Connected feature.id other) :
    ∃ member ∈ relations.members, member.id = other := by
  have placed :
      ∀ {position : Nat}, position < relations.size →
        ∃ member ∈ relations.members,
          member.id = relations.idAt position := by
    intro position inside
    obtain ⟨found, located⟩ := exists_member? inside
    exact
      ⟨found, List.mem_of_getElem? located, (idAt_of_member? located).symm⟩
  cases connected with
  | refl => exact ⟨feature, member, rfl⟩
  | tail _ adjacent =>
      rcases adjacent with forward | backward
      · obtain ⟨first, second, -, rfl, listed⟩ :=
          (lawful.dependsOn_iff _ _).mp forward
        exact placed (lawful.target_lt first second listed)
      · obtain ⟨first, second, rfl, -, listed⟩ :=
          (lawful.dependsOn_iff _ _).mp backward
        exact placed (lawful.source_lt first second listed)

theorem family_singleton
    {relations : Relations} (lawful : relations.Lawful) :
    Family [relations] where
  lawful := by simpa using lawful
  apart := by simp

theorem finished_empty (family : List Relations) :
    Arena.empty.Finished family where
  indexed := Arena.indexed_empty
  settled := by simp [Arena.empty]

/-- The graph of a member is what grows around it from nothing. -/
theorem Lawful.exists_grown
    {relations : Relations} (lawful : relations.Lawful) {feature : Feature}
    (member : feature ∈ relations.members) :
    ∃ position,
      relations.idAt position = feature.id ∧
        relations.graph feature.id =
            .ok
              ⟨(relations.growInto .empty position).1,
                (relations.growInto .empty position).2⟩ ∧
          relations.Grown [relations] .empty position ∧
            ∀ other,
              other ∈ (relations.growInto .empty position).1.features ↔
                relations.Connected feature.id other := by
  obtain ⟨position, placed, inside, here⟩ := lawful.exists_position member
  have grown :=
    (finished_empty [relations]).grow (family_singleton lawful)
      (List.mem_singleton_self relations) inside
  refine ⟨position, here, ?_, grown, ?_⟩
  · rw [Relations.graph, placed]
    rfl
  · intro other
    rw [grown.mem_iff other, here, Arena.features_empty,
      or_iff_right List.not_mem_nil]

/-- The graph of a member has nodes for what is connected to it. -/
theorem Lawful.exists_graph
    {relations : Relations} (lawful : relations.Lawful) {feature : Feature}
    (member : feature ∈ relations.members) :
    ∃ graph,
      relations.graph feature.id = .ok graph ∧
        ∀ other,
          other ∈ graph.arena.features ↔
            relations.Connected feature.id other := by
  obtain ⟨position, -, answered, -, connected⟩ := lawful.exists_grown member
  exact ⟨_, answered, connected⟩

/--
The expansion around a member ends, in a graph that spans the component of the
member; an identity that no member has is not found.
-/
theorem graph_spans_component
    {policy : ConflictPolicy} {catalog : List Feature} {scope : Scope}
    {ledger : Ledger} {relations : Relations}
    (built : build policy catalog scope ledger = .ok relations) :
    (∀ feature ∈ relations.members,
      ∃ position graph,
        relations.position feature.id = .ok position ∧
          relations.graph feature.id = .ok graph ∧
            Growth.Drains relations
              (Growth.meet relations ⟨.empty, []⟩ position).1 graph.arena ∧
              graph.Spans relations feature.id) ∧
      ∀ id, (∀ feature ∈ relations.members, feature.id ≠ id) →
        relations.graph id =
          .error (.featureNotFound id.scope id.title) := by
  have lawful := lawful_of_build built
  constructor
  · intro feature member
    obtain ⟨position, placed, inside, here⟩ := lawful.exists_position member
    have grown :=
      (finished_empty [relations]).grow (family_singleton lawful)
        (List.mem_singleton_self relations) inside
    refine
      ⟨position,
        ⟨(relations.growInto .empty position).1,
          (relations.growInto .empty position).2⟩,
        placed, ?_, grown.drains, ?_⟩
    · rw [Relations.graph, placed]
      rfl
    · refine ⟨?_, grown.finished.indexed.nodup, ?_, ?_⟩
      · rw [← here]
        exact grown.root
      · intro other
        rw [grown.mem_iff other, here]
        constructor
        · rintro (old | connected)
          · simp at old
          · exact
              ⟨lawful.exists_member_of_connected member connected, connected⟩
        · rintro ⟨-, connected⟩
          exact Or.inr connected
      · intro node nodeIn
        obtain ⟨shown, shownIn, expanded⟩ :=
          grown.finished.settled node nodeIn
        rw [List.mem_singleton.mp shownIn] at expanded
        exact expanded.answers lawful
  · intro id absent
    rw [Relations.graph, lawful.position_eq_error absent]
    rfl

/--
Two features that call each other, one that neither of them reaches, and one
of another version.
-/
def loopCatalog : List Feature :=
  [⟨⟨"Shop", "", "Cart", "1"⟩, ["add", "sum"]⟩,
    ⟨⟨"Shop", "", "Cart", "2"⟩, ["add"]⟩,
    ⟨⟨"Shop", "", "Stock", "1"⟩, ["reserve"]⟩,
    ⟨⟨"Shop", "", "Help", "1"⟩, ["show"]⟩]

/-- The calls between them. -/
def loopLedger : Ledger :=
  .ofList
    [("add", ["reserve", "sum"]), ("reserve", ["sum"]), ("show", ["print"])]

/-- The relations of the first version have three members. -/
theorem exists_loopRelations :
    ∃ relations,
      build .firstWins loopCatalog ⟨"Shop", "1"⟩ loopLedger =
          .ok relations ∧
        relations.members.map (·.id) =
          [⟨"Shop", "", "Cart", "1"⟩, ⟨"Shop", "", "Stock", "1"⟩,
            ⟨"Shop", "", "Help", "1"⟩] :=
  ⟨_, rfl, rfl⟩

/-- The graph of a feature in a loop, and the answer for one that is no member. -/
theorem graph_spans_component_of_loop :
    ∃ relations graph,
      build .firstWins loopCatalog ⟨"Shop", "1"⟩ loopLedger =
          .ok relations ∧
        relations.graph ⟨"Shop", "", "Cart", "1"⟩ = .ok graph ∧
          graph.Spans relations ⟨"Shop", "", "Cart", "1"⟩ ∧
            relations.graph ⟨"Shop", "", "Cart", "2"⟩ =
              .error (.featureNotFound ⟨"Shop", "2"⟩ "Cart") := by
  rcases exists_loopRelations with ⟨relations, built, ids⟩
  obtain ⟨found, missing⟩ := graph_spans_component built
  have listed :
      (⟨"Shop", "", "Cart", "1"⟩ : FeatureId) ∈
        relations.members.map (·.id) := by
    rw [ids]
    decide
  rcases List.mem_map.mp listed with ⟨cart, member, same⟩
  obtain ⟨position, graph, -, answered, -, spans⟩ := found cart member
  refine
    ⟨relations, graph, built, same ▸ answered, same ▸ spans,
      missing ⟨"Shop", "", "Cart", "2"⟩ ?_⟩
  intro feature featureIn
  have among := List.mem_map_of_mem (f := Feature.id) featureIn
  rw [ids] at among
  intro other
  rw [other] at among
  exact absurd among (by decide)

end Relations

end FeatureAtlas
