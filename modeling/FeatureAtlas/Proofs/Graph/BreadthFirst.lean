import FeatureAtlas.Proofs.Graph.CycleReport
import FeatureAtlas.Proofs.Graph.Mentions
import Mathlib.Combinatorics.SimpleGraph.Metric

/-!
# Breadth first

The features of a scope are joined where one depends directly on the other.
The lists of a graph show who is joined to whom, so the distance to the feature
that the graph grew from is a measure that its lists carry on.  The places are
in the order of their first mention; hence the nodes come in layers of growing
distance.
-/

namespace FeatureAtlas

/-- The features of a scope, joined where one of two depends directly on the other. -/
def Relations.network (relations : Relations) : SimpleGraph FeatureId :=
  SimpleGraph.fromRel relations.DependsOn

/-! ## Lists and neighbours -/

namespace Arena

/-- A feature is among those that places lead to if its own place is among them. -/
theorem LeadTo.mem_iff
    {arena : Arena} {places : List Nat} {ids : List FeatureId}
    (leads : arena.LeadTo places ids) (once : arena.features.Nodup)
    {place : Nat} {id : FeatureId}
    (standing : arena.features[place]? = some id) :
    place ∈ places ↔ id ∈ ids := by
  constructor
  · intro listed
    have found : arena.features[place]? ∈ ids.map some := by
      rw [← leads]
      exact List.mem_map_of_mem listed
    rw [standing] at found
    simpa using found
  · intro listed
    have found : some id ∈ places.map (arena.features[·]?) := by
      rw [leads]
      exact List.mem_map_of_mem listed
    rcases List.mem_map.mp found with ⟨other, otherIn, there⟩
    have inside := (List.getElem?_eq_some_iff.mp standing).1
    have same : place = other :=
      (List.getElem?_inj inside once).mp (standing.trans there.symm)
    exact same ▸ otherIn

/-- An expanded node lists the places of the features that are adjacent to its own. -/
theorem Expanded.mem_iff_adjacent
    {arena : Arena} {relations : Relations} {node : GraphNode}
    (expanded : arena.Expanded relations node) (lawful : relations.Lawful)
    (once : arena.features.Nodup) {place : Nat} {id : FeatureId}
    (standing : arena.features[place]? = some id) :
    place ∈ node.dependsOn ++ node.dependants ↔
      relations.Adjacent node.feature id := by
  rcases expanded with ⟨position, inside, same, leadsOn, leadsBack⟩
  rw [List.mem_append, leadsOn.mem_iff once standing,
    leadsBack.mem_iff once standing, ← same,
    lawful.adjacent_idAt_iff inside id]
  constructor
  · rintro (forward | backward)
    · rcases List.mem_map.mp forward with ⟨neighbour, listed, here⟩
      exact ⟨neighbour, here, Or.inl listed⟩
    · rcases List.mem_map.mp backward with ⟨neighbour, listed, here⟩
      exact ⟨neighbour, here, Or.inr listed⟩
  · rintro ⟨neighbour, rfl, forward | backward⟩
    · exact Or.inl (List.mem_map_of_mem forward)
    · exact Or.inr (List.mem_map_of_mem backward)

/-- In the finished arena of one scope the lists show who is adjacent to whom. -/
theorem Finished.mem_listedAt_iff
    {relations : Relations} {arena : Arena}
    (finished : arena.Finished [relations]) (lawful : relations.Lawful)
    {place other : Nat} (inside : place < arena.size)
    (otherIn : other < arena.size) :
    other ∈ arena.listedAt place ↔
      relations.Adjacent (arena.node place).feature
        (arena.node other).feature := by
  obtain ⟨shown, shownIn, expanded⟩ :=
    finished.settled _ (node_mem inside)
  rw [List.mem_singleton.mp shownIn] at expanded
  exact
    expanded.mem_iff_adjacent lawful finished.indexed.nodup
      (features_getElem?_node otherIn)

end Arena

/-! ## Distances between features -/

namespace Relations

/-- Of two features one is the other, or they are joined, if they are adjacent. -/
theorem Adjacent.network
    {relations : Relations} {left right : FeatureId}
    (adjacent : relations.Adjacent left right) (apart : left ≠ right) :
    relations.network.Adj left right :=
  (SimpleGraph.fromRel_adj _ _ _).mpr ⟨apart, adjacent⟩

theorem adjacent_of_network
    {relations : Relations} {left right : FeatureId}
    (joined : relations.network.Adj left right) :
    relations.Adjacent left right :=
  ((SimpleGraph.fromRel_adj _ _ _).mp joined).2

/-- Features that are connected are reached from each other. -/
theorem Connected.reachable
    {relations : Relations} {left right : FeatureId}
    (connected : relations.Connected left right) :
    relations.network.Reachable left right := by
  induction connected with
  | refl => exact SimpleGraph.Reachable.refl left
  | tail _ adjacent induction =>
      rename_i middle last _
      by_cases same : middle = last
      · exact same ▸ induction
      · exact induction.trans (adjacent.network same).reachable

/-- A neighbour is one step further away at most. -/
theorem Adjacent.dist_le
    {relations : Relations} {left right : FeatureId}
    (adjacent : relations.Adjacent left right) (start : FeatureId) :
    relations.network.dist start right ≤
      relations.network.dist start left + 1 := by
  by_cases same : left = right
  · rw [same]
    exact Nat.le_succ _
  · have joined := adjacent.network same
    have step := joined.reachable.dist_triangle_right start
    rwa [SimpleGraph.dist_eq_one_iff_adj.mpr joined] at step

/-- On the way to another feature one of its neighbours is nearer. -/
theorem exists_nearer
    {relations : Relations} {start last : FeatureId}
    (reached : relations.network.Reachable start last)
    (other : last ≠ start) :
    ∃ nearer,
      relations.Adjacent nearer last ∧
        relations.network.dist start nearer <
          relations.network.dist start last := by
  obtain ⟨way, shortest⟩ := reached.symm.exists_walk_length_eq_dist
  cases way with
  | nil => exact absurd rfl other
  | cons joined rest =>
      rename_i nearer
      refine ⟨nearer, (adjacent_of_network joined).symm, ?_⟩
      have less := SimpleGraph.dist_le rest
      rw [SimpleGraph.Walk.length_cons, SimpleGraph.dist_comm] at shortest
      rw [SimpleGraph.dist_comm] at less
      omega

end Relations

/-- In the graph around a feature the lists lead from each distance to the next. -/
theorem Arena.Finished.levels
    {relations : Relations} {arena : Arena} {id : FeatureId}
    (finished : arena.Finished [relations]) (lawful : relations.Lawful)
    (root : arena.features[0]? = some id)
    (connected :
      ∀ other, other ∈ arena.features ↔ relations.Connected id other) :
    arena.Levels fun place =>
      relations.network.dist id (arena.node place).feature where
  root := by
    have inside := Arena.lt_size_of_features root
    rw [Arena.features_getElem?_node inside] at root
    rw [Option.some.inj root, SimpleGraph.dist_self]
  step := by
    intro place inside other listed
    have otherIn := finished.lt_size_of_mem_listedAt inside listed
    exact
      ((finished.mem_listedAt_iff lawful inside otherIn).mp listed).dist_le id
  back := by
    intro place inside other
    have standing := Arena.features_getElem?_node inside
    have present := List.mem_of_getElem? standing
    have here := (connected _).mp present
    have apart : (arena.node place).feature ≠ id := by
      intro same
      rw [same, ← root] at standing
      refine other ((List.getElem?_inj ?_ finished.indexed.nodup).mp standing)
      rwa [Arena.length_features]
    obtain ⟨nearer, adjacent, less⟩ :=
      Relations.exists_nearer here.reachable apart
    have nearerIn : nearer ∈ arena.features := by
      refine
        finished.mem_of_adjacent (Relations.family_singleton lawful)
          (List.mem_singleton_self relations) present adjacent.symm
    obtain ⟨source, there⟩ := List.mem_iff_getElem?.mp nearerIn
    have sourceIn := Arena.lt_size_of_features there
    rw [Arena.features_getElem?_node sourceIn] at there
    obtain rfl := Option.some.inj there
    exact
      ⟨source, sourceIn,
        (finished.mem_listedAt_iff lawful sourceIn inside).mpr adjacent, less⟩

/-- Features whose places are levels of a distance stand in the order of that distance. -/
theorem Arena.MentionsInOrder.pairwise_distance
    {arena : Arena} (ordered : arena.MentionsInOrder)
    (rooted : arena.Rooted [0]) {distance : FeatureId → Nat}
    (levels : arena.Levels fun place => distance (arena.node place).feature) :
    (arena.features.map distance).Pairwise (· ≤ ·) := by
  have standing :
      ∀ {place : Nat} (inside : place < arena.features.length),
        arena.features[place] = (arena.node place).feature := by
    intro place inside
    apply Option.some.inj
    rw [← List.getElem?_eq_getElem inside]
    exact Arena.features_getElem?_node (by simpa using inside)
  rw [List.pairwise_map, List.pairwise_iff_getElem]
  intro left right leftIn rightIn before
  rw [standing leftIn, standing rightIn]
  rw [Arena.length_features] at rightIn
  exact
    ordered.level_le rooted levels _ (Nat.le_of_lt before) rightIn
      (Nat.le_refl _)

/-! ## The order of materialization -/

/-- A graph whose nodes are in the order of a breadth-first traversal from its root. -/
structure FeatureGraph.BreadthFirst
    (graph : FeatureGraph) (relations : Relations) (id : FeatureId) :
    Prop where
  root : graph.arena.features[graph.root]? = some id
  /-- The distances below are lengths of chains that exist. -/
  reachable :
    ∀ other ∈ graph.arena.features, relations.network.Reachable id other
  layered :
    (graph.arena.features.map (relations.network.dist id)).Pairwise (· ≤ ·)
  discovered :
    ∀ place < graph.arena.size, place ≠ graph.root →
      ∃ parent < place, graph.arena.FirstListed parent place
  mentioned : graph.arena.MentionsInOrder

namespace Relations

/--
The nodes of the graph around a member never come nearer to it from one place
to the next, and each of them is first listed at an earlier place.
-/
theorem graph_breadth_first
    {policy : ConflictPolicy} {catalog : List Feature} {scope : Scope}
    {ledger : Ledger} {relations : Relations}
    (built : build policy catalog scope ledger = .ok relations)
    {feature : Feature} (member : feature ∈ relations.members) :
    ∃ graph,
      relations.graph feature.id = .ok graph ∧
        graph.BreadthFirst relations feature.id := by
  have lawful := lawful_of_build built
  obtain ⟨position, here, answered, grown, connected⟩ :=
    lawful.exists_grown member
  have root :
      (relations.growInto .empty position).1.features[0]? =
        some feature.id :=
    here ▸ grown.root
  have rooted := (lawful.whole_graph answered).rooted
  have ordered :=
    grown.drains.mentionsInOrder (Growth.inOrder_start relations position)
  have levels := grown.finished.levels lawful root connected
  exact
    ⟨_, answered, root,
      fun other present => ((connected other).mp present).reachable,
      ordered.pairwise_distance rooted levels,
      fun _ => rooted.exists_firstListed, ordered⟩

/-- Around a member of two rings the others stand at growing distances. -/
theorem graph_breadth_first_of_rings :
    ∃ relations graph,
      build .firstWins ringCatalog ⟨"Shop", "1"⟩ ringLedger =
          .ok relations ∧
        relations.graph ⟨"Shop", "", "Price", "1"⟩ = .ok graph ∧
          graph.BreadthFirst relations ⟨"Shop", "", "Price", "1"⟩ ∧
            graph.arena.features.map (·.title) =
              ["Price", "Offer", "Cart", "Stock", "Order"] ∧
              (List.range 5).map graph.arena.listedAt =
                [[1, 2, 1], [0, 0], [3, 4, 0], [4, 2], [2, 3]] := by
  have built :
      ∃ relations graph,
        build .firstWins ringCatalog ⟨"Shop", "1"⟩ ringLedger =
            .ok relations ∧
          relations.graph ⟨"Shop", "", "Price", "1"⟩ = .ok graph ∧
            relations.members[4]? =
                some ⟨⟨"Shop", "", "Price", "1"⟩, ["price"]⟩ ∧
              graph.arena.features.map (·.title) =
                  ["Price", "Offer", "Cart", "Stock", "Order"] ∧
                (List.range 5).map graph.arena.listedAt =
                  [[1, 2, 1], [0, 0], [3, 4, 0], [4, 2], [2, 3]] :=
    ⟨_, _, rfl, rfl, rfl, rfl, rfl⟩
  rcases built with
    ⟨relations, graph, built, answered, price, titles, lists⟩
  obtain ⟨again, same, ordered⟩ :=
    graph_breadth_first built (List.mem_of_getElem? price)
  obtain rfl := Except.ok.inj (answered.symm.trans same)
  exact ⟨relations, graph, built, answered, ordered, titles, lists⟩

end Relations

end FeatureAtlas
