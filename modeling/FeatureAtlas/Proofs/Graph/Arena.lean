import FeatureAtlas.Proofs.Graph.Adjacency
import FeatureAtlas.Graph.Arena

/-!
# Arenas and the features in them

An arena is read through the list of its features: adding a node appends to
that list and filling in neighbours leaves it alone.  A node is expanded when
its two lists of places lead to exactly the features that the one-hop
relations give for it; this stays true while the arena grows.
-/

namespace FeatureAtlas.Arena

/-- The features of the nodes in order of materialization. -/
def features (arena : Arena) : List FeatureId :=
  arena.nodes.map (·.feature)

/-- The table finds a feature at exactly the place where its node stands. -/
def Indexed (arena : Arena) : Prop :=
  ∀ id place,
    arena.find? id = some place ↔ arena.features[place]? = some id

@[simp]
theorem features_empty : Arena.empty.features = [] := rfl

@[simp]
theorem features_add (arena : Arena) (id : FeatureId) :
    (arena.add id).features = arena.features ++ [id] := by
  simp [features, add]

@[simp]
theorem length_features (arena : Arena) :
    arena.features.length = arena.size := by
  simp [features, size]

theorem features_getElem? (arena : Arena) (place : Nat) :
    arena.features[place]? = (arena.node? place).map (·.feature) := by
  rw [features, List.getElem?_map]
  rfl

/-- Where a feature stands there is a node. -/
theorem lt_size_of_features
    {arena : Arena} {place : Nat} {id : FeatureId}
    (standing : arena.features[place]? = some id) :
    place < arena.size := by
  rw [← length_features]
  exact (List.getElem?_eq_some_iff.mp standing).1

theorem node?_eq
    {arena : Arena} {place : Nat} (inside : place < arena.size) :
    arena.node? place = some (arena.node place) := by
  rw [node, node?, List.getElem?_eq_getElem inside]
  rfl

theorem node_mem
    {arena : Arena} {place : Nat} (inside : place < arena.size) :
    arena.node place ∈ arena.nodes :=
  List.mem_of_getElem? (node?_eq inside)

theorem node?_connect
    (arena : Arena) (place other : Nat) (dependsOn dependants : List Nat) :
    (arena.connect place dependsOn dependants).node? other =
      (arena.node? other).map fun node =>
        if place = other then
          { node with dependsOn := dependsOn, dependants := dependants }
        else node := by
  simp only [node?, connect, List.getElem?_modify, Option.map_eq_map]

@[simp]
theorem features_connect
    (arena : Arena) (place : Nat) (dependsOn dependants : List Nat) :
    (arena.connect place dependsOn dependants).features =
      arena.features := by
  apply List.ext_getElem?
  intro other
  rw [features_getElem?, features_getElem?, node?_connect, Option.map_map]
  congr 1
  funext node
  by_cases here : place = other <;> simp [here]

theorem find?_connect
    (arena : Arena) (place : Nat) (dependsOn dependants : List Nat)
    (id : FeatureId) :
    (arena.connect place dependsOn dependants).find? id = arena.find? id :=
  rfl

/-! ## The table of places -/

theorem indexed_empty : Arena.empty.Indexed := by
  intro id place
  simp [find?, empty, features]

namespace Indexed

variable {arena : Arena}

theorem not_mem
    (indexed : arena.Indexed) {id : FeatureId}
    (missing : arena.find? id = none) :
    id ∉ arena.features := by
  intro member
  obtain ⟨place, found⟩ := List.mem_iff_getElem?.mp member
  rw [(indexed id place).mpr found] at missing
  cases missing

theorem add
    (indexed : arena.Indexed) {id : FeatureId}
    (missing : arena.find? id = none) :
    (arena.add id).Indexed := by
  intro other place
  have absent := indexed.not_mem missing
  have looked :
      (arena.add id).find? other =
        if id = other then some arena.features.length
        else arena.find? other := by
    rw [length_features]
    exact Table.get?_insert arena.places id other arena.size
  rw [looked, features_add]
  rcases Nat.lt_trichotomy place arena.features.length with
    before | here | behind
  · rw [List.getElem?_append_left before]
    by_cases same : id = other
    · subst same
      constructor
      · intro found
        simp only [if_true, Option.some.injEq] at found
        exact absurd before (by simp [← found])
      · exact fun found => absurd (List.mem_of_getElem? found) absent
    · rw [if_neg same]
      exact indexed other place
  · subst here
    by_cases same : id = other
    · simp [same]
    · rw [if_neg same, indexed other]
      simp [same]
  · have nothing : (arena.features ++ [id])[place]? = none := by
      rw [List.getElem?_eq_none]
      simpa using Nat.succ_le_of_lt behind
    rw [nothing]
    constructor
    · intro found
      split at found
      · cases found
        exact absurd behind (Nat.lt_irrefl _)
      · have standing := (indexed other place).mp found
        rw [List.getElem?_eq_none (Nat.le_of_lt behind)] at standing
        cases standing
    · intro impossible
      cases impossible

theorem connect
    (indexed : arena.Indexed) (place : Nat)
    (dependsOn dependants : List Nat) :
    (arena.connect place dependsOn dependants).Indexed := by
  intro id other
  rw [find?_connect, features_connect]
  exact indexed id other

/-- No feature has two nodes. -/
theorem nodup (indexed : arena.Indexed) : arena.features.Nodup := by
  rw [List.nodup_iff_injective_get]
  intro left right same
  have leftFound :
      arena.find? (arena.features.get left) = some left.val :=
    (indexed _ _).mpr (List.getElem?_eq_getElem left.isLt)
  have rightFound :
      arena.find? (arena.features.get right) = some right.val :=
    (indexed _ _).mpr (List.getElem?_eq_getElem right.isLt)
  rw [same, rightFound] at leftFound
  exact Fin.ext (Option.some.inj leftFound).symm

end Indexed

/-! ## Expanded nodes -/

/-- Places lead to features. -/
def LeadTo (arena : Arena) (places : List Nat) (ids : List FeatureId) : Prop :=
  places.map (arena.features[·]?) = ids.map some

/-- The neighbours of a node are those of the member that it stands for. -/
def Expanded
    (arena : Arena) (relations : Relations) (node : GraphNode) : Prop :=
  ∃ position < relations.size,
    relations.idAt position = node.feature ∧
      arena.LeadTo node.dependsOn
        ((relations.dependenciesAt position).map relations.idAt) ∧
        arena.LeadTo node.dependants
          ((relations.dependentsAt position).map relations.idAt)

theorem feature_mono
    {earlier later : Arena} (grown : earlier.features <+: later.features)
    {place : Nat} {id : FeatureId}
    (found : earlier.features[place]? = some id) :
    later.features[place]? = some id := by
  rcases grown with ⟨added, together⟩
  have inside := (List.getElem?_eq_some_iff.mp found).1
  rw [← together, List.getElem?_append_left inside, found]

theorem LeadTo.mono
    {earlier later : Arena} (grown : earlier.features <+: later.features)
    {places : List Nat} {ids : List FeatureId}
    (leads : earlier.LeadTo places ids) :
    later.LeadTo places ids := by
  induction places generalizing ids with
  | nil => exact leads
  | cons place places induction =>
      cases ids with
      | nil => cases leads
      | cons id ids =>
          simp only [LeadTo, List.map_cons, List.cons.injEq] at leads ⊢
          exact ⟨feature_mono grown leads.1, induction leads.2⟩

theorem LeadTo.mem
    {arena : Arena} {places : List Nat} {ids : List FeatureId}
    (leads : arena.LeadTo places ids) {id : FeatureId} (listed : id ∈ ids) :
    id ∈ arena.features := by
  have found : some id ∈ places.map (arena.features[·]?) := by
    rw [leads]
    exact List.mem_map_of_mem listed
  rcases List.mem_map.mp found with ⟨place, -, standing⟩
  exact List.mem_of_getElem? standing

/-- A node that is expanded stays so while the arena grows. -/
theorem Expanded.mono
    {earlier later : Arena} (grown : earlier.features <+: later.features)
    {relations : Relations} {node : GraphNode}
    (expanded : earlier.Expanded relations node) :
    later.Expanded relations node := by
  rcases expanded with ⟨position, inside, same, dependencies, dependents⟩
  exact
    ⟨position, inside, same, dependencies.mono grown, dependents.mono grown⟩

/-- The two lists of a node lead to what the one-hop queries answer for its feature. -/
def Answers
    (arena : Arena) (relations : Relations) (node : GraphNode) : Prop :=
  ∃ dependencies dependents,
    relations.directDependencies node.feature = .ok dependencies ∧
      relations.directDependents node.feature = .ok dependents ∧
        arena.LeadTo node.dependsOn (dependencies.map (·.id)) ∧
          arena.LeadTo node.dependants (dependents.map (·.id))

/-- An expanded node gives the answers to the one-hop queries. -/
theorem Expanded.answers
    {arena : Arena} {relations : Relations} {node : GraphNode}
    (expanded : arena.Expanded relations node) (lawful : relations.Lawful) :
    arena.Answers relations node := by
  rcases expanded with ⟨position, inside, same, leadsOn, leadsBack⟩
  obtain ⟨dependencies, dependenciesAnswer, dependenciesIds⟩ :=
    lawful.directDependencies_idAt inside
  obtain ⟨dependents, dependentsAnswer, dependentsIds⟩ :=
    lawful.directDependents_idAt inside
  refine ⟨dependencies, dependents, ?_, ?_, ?_, ?_⟩
  · exact same ▸ dependenciesAnswer
  · exact same ▸ dependentsAnswer
  · exact dependenciesIds ▸ leadsOn
  · exact dependentsIds ▸ leadsBack

/-- Whatever is adjacent to an expanded node is in the arena. -/
theorem Expanded.mem_of_adjacent
    {arena : Arena} {relations : Relations} {node : GraphNode}
    (expanded : arena.Expanded relations node) (lawful : relations.Lawful)
    {other : FeatureId} (adjacent : relations.Adjacent node.feature other) :
    other ∈ arena.features := by
  rcases expanded with ⟨position, inside, same, leadsOn, leadsBack⟩
  rw [← same] at adjacent
  obtain ⟨neighbour, rfl, dependency | dependent⟩ :=
    (lawful.adjacent_idAt_iff inside other).mp adjacent
  · exact leadsOn.mem (List.mem_map_of_mem dependency)
  · exact leadsBack.mem (List.mem_map_of_mem dependent)

end FeatureAtlas.Arena
