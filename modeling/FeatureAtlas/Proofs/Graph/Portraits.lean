import FeatureAtlas.Proofs.Graph.Forest

/-!
# Nodes without places

Two arenas may hold the same nodes at different places.  The portrait of a
node names its neighbours by their features, so portraits can be compared
across arenas.  In a finished arena they tell what the one-hop queries answer,
and nothing about how the arena came about.
-/

namespace FeatureAtlas

/-- A feature and the features of its neighbours. -/
structure Portrait where
  feature : FeatureId
  dependsOn : List FeatureId
  dependants : List FeatureId
deriving DecidableEq, Repr

namespace Arena

/-- The features of the nodes at places. -/
def ids (arena : Arena) (places : List Nat) : List FeatureId :=
  places.map fun place => (arena.node place).feature

def portrait (arena : Arena) (node : GraphNode) : Portrait :=
  ⟨node.feature, arena.ids node.dependsOn, arena.ids node.dependants⟩

/-- The portraits of all nodes. -/
def portraits (arena : Arena) : List Portrait :=
  arena.nodes.map arena.portrait

theorem feature_node_of_features
    {arena : Arena} {place : Nat} {id : FeatureId}
    (found : arena.features[place]? = some id) :
    (arena.node place).feature = id := by
  rw [features_getElem?] at found
  rcases Option.map_eq_some_iff.mp found with ⟨node, standing, rfl⟩
  rw [Arena.node, standing, Option.getD_some]

/-- Places that lead to features have these features. -/
theorem LeadTo.ids_eq
    {arena : Arena} {places : List Nat} {ids : List FeatureId}
    (leads : arena.LeadTo places ids) :
    arena.ids places = ids := by
  induction places generalizing ids with
  | nil => exact (List.map_eq_nil_iff.mp leads.symm).symm
  | cons place places induction =>
      cases ids with
      | nil => cases leads
      | cons id ids =>
          rcases List.cons.inj leads with ⟨here, others⟩
          exact
            congrArg₂ List.cons (feature_node_of_features here)
              (induction others)

end Arena

/-- The portrait of a member, from the answers to the one-hop queries. -/
def Relations.portrait (relations : Relations) (id : FeatureId) : Portrait where
  feature := id
  dependsOn :=
    ((relations.directDependencies id).toOption.getD []).map (·.id)
  dependants :=
    ((relations.directDependents id).toOption.getD []).map (·.id)

/-- A node that answers the one-hop queries has the portrait that they give. -/
theorem Arena.Answers.portrait_eq
    {arena : Arena} {relations : Relations} {node : GraphNode}
    (answers : arena.Answers relations node) :
    arena.portrait node = relations.portrait node.feature := by
  rcases answers with
    ⟨dependencies, dependents, forward, backward, leadsOn, leadsBack⟩
  rw [Arena.portrait, Relations.portrait, forward, backward,
    leadsOn.ids_eq, leadsBack.ids_eq]
  rfl

namespace Forest

/-- The features of the roots. -/
def rootIds (forest : Forest) : List FeatureId :=
  forest.arena.ids forest.roots

section Shown

variable {built : List Relations}

/-- The roots of a forest are those of its scopes. -/
theorem rootIds_ofScopes (family : Relations.Family built) :
    (ofScopes built).rootIds = (rootsOf built).map ScopeRoot.id :=
  (grown_ofScopes family).roots.ids_eq

/-- A forest holds what is connected to a root. -/
theorem mem_features_ofScopes
    (family : Relations.Family built) (id : FeatureId) :
    id ∈ (ofScopes built).arena.features ↔
      ∃ relations ∈ built,
        ∃ position ∈ relations.rootPositions,
          relations.Connected (relations.idAt position) id := by
  rw [(grown_ofScopes family).mem_iff id]
  constructor
  · rintro ⟨root, member, connected⟩
    obtain ⟨relationsIn, listed⟩ := (mem_rootsOf built root).mp member
    exact ⟨root.relations, relationsIn, root.position, listed, connected⟩
  · rintro ⟨relations, relationsIn, position, listed, connected⟩
    exact
      ⟨⟨relations, position⟩,
        (mem_rootsOf built _).mpr ⟨relationsIn, listed⟩, connected⟩

/-- A node shows what the relations of its scope say. -/
theorem portrait_eq_of_mem
    (family : Relations.Family built) {node : GraphNode}
    (member : node ∈ (ofScopes built).arena.nodes)
    {relations : Relations} (relationsIn : relations ∈ built)
    (scope : node.feature.scope = relations.scope) :
    (ofScopes built).arena.portrait node =
      relations.portrait node.feature := by
  obtain ⟨shown, shownIn, expanded⟩ :=
    (grown_ofScopes family).finished.settled node member
  have lawful := family.lawful shown shownIn
  have same : shown = relations := by
    refine family.apart shown shownIn relations relationsIn ?_
    rcases expanded with ⟨position, inside, here, -, -⟩
    rw [← scope, ← here, lawful.idAt_scope inside]
  subst same
  exact (expanded.answers lawful).portrait_eq

end Shown

end Forest

end FeatureAtlas
