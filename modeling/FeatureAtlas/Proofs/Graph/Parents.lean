import FeatureAtlas.Proofs.Graph.Forest

/-!
# Every node is met through a root or through an earlier node

A growth makes a node when a root is met or when an earlier node is expanded,
which then lists it.  So each place of an arena is a root or a neighbour of an
earlier place: nothing in an arena is cut off from the roots.
-/

namespace FeatureAtlas

namespace Arena

/-- The places that the node at a place lists. -/
def listedAt (arena : Arena) (place : Nat) : List Nat :=
  (arena.node place).dependsOn ++ (arena.node place).dependants

/-- Each place is one of the roots or is listed at an earlier place. -/
def Rooted (arena : Arena) (roots : List Nat) : Prop :=
  ∀ place < arena.size,
    place ∈ roots ∨ ∃ parent < place, place ∈ arena.listedAt parent

theorem listedAt_of_prefix
    {earlier later : Arena} (grown : earlier.nodes <+: later.nodes)
    {place : Nat} (inside : place < earlier.size) :
    later.listedAt place = earlier.listedAt place := by
  rcases grown with ⟨added, together⟩
  have same : later.node? place = earlier.node? place := by
    rw [node?, ← together, List.getElem?_append_left inside]
    rfl
  rw [listedAt, listedAt, node, node, same]

theorem listedAt_connect
    (arena : Arena) {place other : Nat} (dependsOn dependants : List Nat)
    (inside : place < arena.size) :
    (arena.connect place dependsOn dependants).listedAt other =
      if place = other then dependsOn ++ dependants
      else arena.listedAt other := by
  have found := node?_connect arena place other dependsOn dependants
  by_cases here : place = other
  · subst here
    rw [node?_eq inside] at found
    simp [listedAt, node, found]
  · simp [listedAt, node, found, here]

/-- Places that lead to features are places of the arena. -/
theorem LeadTo.lt_size
    {arena : Arena} {places : List Nat} {ids : List FeatureId}
    (leads : arena.LeadTo places ids) {place : Nat}
    (listed : place ∈ places) :
    place < arena.size := by
  have found : arena.features[place]? ∈ ids.map some := by
    rw [← leads]
    exact List.mem_map_of_mem listed
  rcases List.mem_map.mp found with ⟨id, -, standing⟩
  exact lt_size_of_features standing.symm

/-- What a settled node lists are places of the arena. -/
theorem Settled.lt_size
    {family : List Relations} {arena : Arena} {node : GraphNode}
    (settled : arena.Settled family node) {place : Nat}
    (listed : place ∈ node.dependsOn ++ node.dependants) :
    place < arena.size := by
  obtain ⟨relations, -, position, -, -, leadsOn, leadsBack⟩ := settled
  rcases List.mem_append.mp listed with forward | backward
  · exact leadsOn.lt_size forward
  · exact leadsBack.lt_size backward

/-- What the nodes of a finished arena list are places of the arena. -/
theorem Finished.lt_size_of_mem_listedAt
    {family : List Relations} {arena : Arena}
    (finished : arena.Finished family) {place other : Nat}
    (inside : place < arena.size) (listed : other ∈ arena.listedAt place) :
    other < arena.size :=
  (finished.settled _ (node_mem inside)).lt_size listed

end Arena

namespace Growth

/-- A growth that has gone on, where some places were met. -/
structure Extends (earlier later : Growth) (met : List Nat) : Prop where
  nodes : earlier.arena.nodes <+: later.arena.nodes
  pending :
    ∀ entry ∈ later.pending,
      entry ∈ earlier.pending ∨ earlier.arena.size ≤ entry.2
  met :
    ∀ place < later.arena.size, place < earlier.arena.size ∨ place ∈ met

theorem Extends.refl (growth : Growth) : Extends growth growth [] where
  nodes := List.prefix_refl _
  pending := fun _ member => Or.inl member
  met := fun _ inside => Or.inl inside

theorem Extends.size_le
    {earlier later : Growth} {met : List Nat}
    (extend : Extends earlier later met) :
    earlier.arena.size ≤ later.arena.size :=
  extend.nodes.length_le

theorem Extends.trans
    {first second third : Growth} {met metLater : List Nat}
    (left : Extends first second met) (right : Extends second third metLater) :
    Extends first third (met ++ metLater) where
  nodes := left.nodes.trans right.nodes
  pending := by
    intro entry member
    rcases right.pending entry member with old | new
    · exact left.pending entry old
    · exact Or.inr (left.size_le.trans new)
  met := by
    intro place inside
    rcases right.met place inside with before | here
    · exact (left.met place before).imp_right (List.mem_append_left _)
    · exact Or.inr (List.mem_append_right _ here)

theorem extends_meet
    (relations : Relations) (growth : Growth) (position : Nat) :
    Extends growth (growth.meet relations position).1
      [(growth.meet relations position).2] := by
  cases looked : growth.arena.find? (relations.idAt position) with
  | some place =>
      rw [meet_of_found looked]
      exact
        { Extends.refl growth with met := fun _ inside => Or.inl inside }
  | none =>
      rw [meet_of_missing looked]
      refine ⟨List.prefix_append _ _, ?_, ?_⟩
      · intro entry member
        rcases List.mem_append.mp member with old | new
        · exact Or.inl old
        · rw [List.mem_singleton.mp new]
          exact Or.inr (Nat.le_refl _)
      · intro place inside
        rw [Arena.size_add] at inside
        rcases Nat.lt_succ_iff_lt_or_eq.mp inside with before | rfl
        · exact Or.inl before
        · exact Or.inr (List.mem_singleton_self _)

theorem extends_meetAll
    (relations : Relations) (growth : Growth) (positions : List Nat) :
    Extends growth (growth.meetAll relations positions).1
      (growth.meetAll relations positions).2 := by
  induction positions generalizing growth with
  | nil => exact Extends.refl growth
  | cons position rest induction =>
      exact (extends_meet relations growth position).trans (induction _)

/--
Each place is one of the roots or is listed at an earlier place that does not
wait.
-/
def Rooted (roots : List Nat) (growth : Growth) : Prop :=
  ∀ place < growth.arena.size,
    place ∈ roots ∨
      ∃ parent < place,
        parent ∉ growth.pending.map (·.2) ∧
          place ∈ growth.arena.listedAt parent

/-- What is met becomes a root, if it is not rooted yet. -/
theorem Rooted.extend
    {earlier later : Growth} {roots met : List Nat}
    (rooted : Rooted roots earlier) (extend : Extends earlier later met) :
    Rooted (roots ++ met) later := by
  intro place inside
  rcases extend.met place inside with before | new
  · rcases rooted place before with root | ⟨parent, above, idle, listed⟩
    · exact Or.inl (List.mem_append_left _ root)
    · have parentIn := Nat.lt_trans above before
      refine Or.inr ⟨parent, above, ?_, ?_⟩
      · intro waits
        rcases List.mem_map.mp waits with ⟨entry, member, rfl⟩
        rcases extend.pending entry member with old | added
        · exact idle (List.mem_map_of_mem old)
        · exact Nat.not_lt.mpr added parentIn
      · rwa [Arena.listedAt_of_prefix extend.nodes parentIn]
  · exact Or.inl (List.mem_append_right _ new)

/-- What was met for the place that is expanded is listed there. -/
theorem Rooted.connect
    {arena : Arena} {pending : List (Nat × Nat)} {later : Growth}
    {position place : Nat} {roots dependsOn dependants : List Nat}
    (rooted : Rooted roots ⟨arena, (position, place) :: pending⟩)
    (extend : Extends ⟨arena, pending⟩ later (dependsOn ++ dependants))
    (inside : place < arena.size) (apart : place ∉ pending.map (·.2)) :
    Rooted roots
      ⟨later.arena.connect place dependsOn dependants, later.pending⟩ := by
  -- Whoever was there before and did not wait does not wait now.
  have idle :
      ∀ other < arena.size, other ∉ pending.map (·.2) →
        other ∉ later.pending.map (·.2) := by
    intro other before absent waits
    rcases List.mem_map.mp waits with ⟨entry, member, rfl⟩
    rcases extend.pending entry member with old | added
    · exact absent (List.mem_map_of_mem old)
    · exact Nat.not_lt.mpr added before
  have lists :
      ∀ other,
        (later.arena.connect place dependsOn dependants).listedAt other =
          if place = other then dependsOn ++ dependants
          else later.arena.listedAt other := fun other =>
    Arena.listedAt_connect later.arena dependsOn dependants
      (Nat.lt_of_lt_of_le inside extend.size_le)
  intro other within
  rw [Arena.size_connect] at within
  rcases Nat.lt_or_ge other arena.size with before | behind
  · rcases rooted other before with root | ⟨parent, above, absent, listed⟩
    · exact Or.inl root
    · simp only [List.map_cons, List.mem_cons, not_or] at absent
      have parentIn := Nat.lt_trans above before
      refine Or.inr ⟨parent, above, idle parent parentIn absent.2, ?_⟩
      rw [lists, if_neg (Ne.symm absent.1),
        Arena.listedAt_of_prefix extend.nodes parentIn]
      exact listed
  · have met :=
      (extend.met other within).resolve_left (Nat.not_lt.mpr behind)
    refine
      Or.inr
        ⟨place, Nat.lt_of_lt_of_le inside behind, idle place inside apart,
          ?_⟩
    rwa [lists, if_pos rfl]

/-- A step lists the nodes that it makes at the place that it expands. -/
theorem Rooted.expand
    {family : List Relations} {relations : Relations} {arena : Arena}
    {position place : Nat} {pending : List (Nat × Nat)} {roots : List Nat}
    (rooted : Rooted roots ⟨arena, (position, place) :: pending⟩)
    (steady :
      Steady family relations [] ⟨arena, (position, place) :: pending⟩) :
    Rooted roots
      (Growth.expand relations ⟨arena, pending⟩ position place) := by
  obtain ⟨-, standing⟩ := steady.standing (position, place) (by simp)
  have inside := Arena.lt_size_of_features standing
  have forward :=
    extends_meetAll relations ⟨arena, pending⟩
      (relations.dependenciesAt position)
  exact
    rooted.connect
      (forward.trans (extends_meetAll relations _ _)) inside
      (List.nodup_cons.mp steady.apart).1

theorem Rooted.arena
    {growth : Growth} {roots : List Nat} (rooted : Rooted roots growth) :
    growth.arena.Rooted roots := by
  intro place inside
  rcases rooted place inside with root | ⟨parent, above, -, listed⟩
  · exact Or.inl root
  · exact Or.inr ⟨parent, above, listed⟩

/-- At the end of a run each place is rooted. -/
theorem Rooted.run
    {family : List Relations} {relations : Relations} {growth : Growth}
    {roots : List Nat} (rooted : Rooted roots growth)
    (lawful : relations.Lawful) (member : relations ∈ family)
    (steady : Steady family relations [] growth) (steps : Nat) :
    (growth.run relations steps).arena.Rooted roots := by
  induction steps generalizing growth with
  | zero => exact rooted.arena
  | succ steps induction =>
      rcases growth with ⟨arena, pending⟩
      cases pending with
      | nil => exact rooted.arena
      | cons entry pending =>
          rcases entry with ⟨position, place⟩
          exact
            induction (rooted.expand steady) (steady.expand lawful member)

end Growth

/-- Growing around a member makes it a root. -/
theorem Arena.Rooted.growInto
    {family : List Relations} {relations : Relations} {arena : Arena}
    {roots : List Nat} (rooted : arena.Rooted roots)
    (finished : arena.Finished family) (lawful : relations.Lawful)
    (member : relations ∈ family) {position : Nat}
    (inside : position < relations.size) :
    (relations.growInto arena position).1.Rooted
      (roots ++ [(relations.growInto arena position).2]) := by
  have start : Growth.Rooted roots ⟨arena, []⟩ := fun place within =>
    (rooted place within).imp_right
      fun ⟨parent, above, listed⟩ => ⟨parent, above, by simp, listed⟩
  exact
    (start.extend (Growth.extends_meet relations ⟨arena, []⟩ position)).run
      lawful member ((finished.idle relations).meet inside) relations.size

/-! ## Forests and single graphs -/

/-- An arena in which no feature has two nodes and none is cut off from the roots. -/
structure Arena.Whole (arena : Arena) (roots : List Nat) : Prop where
  once : arena.features.Nodup
  within : ∀ root ∈ roots, root < arena.size
  closed :
    ∀ place < arena.size, ∀ other ∈ arena.listedAt place,
      other < arena.size
  rooted : arena.Rooted roots

theorem Arena.features_getElem?_node
    {arena : Arena} {place : Nat} (inside : place < arena.size) :
    arena.features[place]? = some (arena.node place).feature := by
  rw [features_getElem?, node?_eq inside]
  rfl

/-- No two places of a whole arena hold the same feature. -/
theorem Arena.Whole.place_eq_of_feature_eq
    {arena : Arena} {roots : List Nat} (whole : arena.Whole roots)
    {left right : Nat} (leftIn : left < arena.size)
    (rightIn : right < arena.size)
    (same : (arena.node left).feature = (arena.node right).feature) :
    left = right := by
  refine (List.getElem?_inj (by simpa using leftIn) whole.once).mp ?_
  rw [features_getElem?_node leftIn, features_getElem?_node rightIn, same]

namespace Forest

/-- The state of a forest between two roots. -/
structure Sound (family : List Relations) (forest : Forest) : Prop where
  finished : forest.arena.Finished family
  within : ∀ root ∈ forest.roots, root < forest.arena.size
  rooted : forest.arena.Rooted forest.roots

theorem sound_empty (family : List Relations) :
    Sound family Forest.empty where
  finished := Relations.finished_empty family
  within := by simp [Forest.empty]
  rooted := fun _ inside => by cases inside

theorem Sound.grow
    {family : List Relations} {forest : Forest}
    (sound : Sound family forest) {root : ScopeRoot}
    (lawful : root.relations.Lawful) (member : root.relations ∈ family)
    (inside : root.position < root.relations.size) :
    Sound family (forest.grow root) := by
  obtain ⟨done, -, grown, here⟩ :=
    sound.finished.growInto lawful member inside
  refine
    ⟨done, ?_,
      sound.rooted.growInto sound.finished lawful member inside⟩
  intro place listed
  rw [← Arena.length_features]
  rcases List.mem_append.mp listed with before | last
  · have old := sound.within place before
    rw [← Arena.length_features] at old
    exact Nat.lt_of_lt_of_le old grown.length_le
  · rw [List.mem_singleton.mp last]
    exact (List.getElem?_eq_some_iff.mp here).1

theorem Sound.foldl
    {family : List Relations} {forest : Forest}
    (sound : Sound family forest)
    (lawful : ∀ relations ∈ family, relations.Lawful)
    (rest : List ScopeRoot)
    (among :
      ∀ root ∈ rest,
        root.relations ∈ family ∧ root.position < root.relations.size) :
    Sound family (rest.foldl Forest.grow forest) := by
  induction rest generalizing forest with
  | nil => exact sound
  | cons root rest induction =>
      obtain ⟨member, inside⟩ := among root (by simp)
      exact
        induction (sound.grow (lawful _ member) member inside)
          fun other otherIn => among other (by simp [otherIn])

theorem Sound.whole
    {family : List Relations} {forest : Forest}
    (sound : Sound family forest) :
    forest.arena.Whole forest.roots where
  once := sound.finished.indexed.nodup
  within := sound.within
  closed := fun _ inside _ => sound.finished.lt_size_of_mem_listedAt inside
  rooted := sound.rooted

/-- The roots of several scopes are members of one of them. -/
theorem among_rootsOf (built : List Relations) :
    ∀ root ∈ rootsOf built,
      root.relations ∈ built ∧ root.position < root.relations.size := by
  intro root member
  obtain ⟨relationsIn, listed⟩ := (mem_rootsOf built root).mp member
  exact ⟨relationsIn, Relations.lt_size_of_mem_rootPositions listed⟩

theorem sound_ofScopes
    {built : List Relations}
    (lawful : ∀ relations ∈ built, relations.Lawful) :
    Sound built (ofScopes built) :=
  (sound_empty built).foldl lawful (rootsOf built) (among_rootsOf built)

/-- The forest of several scopes is whole, whatever the scopes are. -/
theorem whole_ofScopes
    {built : List Relations}
    (lawful : ∀ relations ∈ built, relations.Lawful) :
    (ofScopes built).arena.Whole (ofScopes built).roots :=
  (sound_ofScopes lawful).whole

end Forest

/-- The graph around a feature grows as the only root of a forest does. -/
theorem Relations.Lawful.sound_graph
    {relations : Relations} (lawful : relations.Lawful) {id : FeatureId}
    {graph : FeatureGraph} (answered : relations.graph id = .ok graph) :
    Forest.Sound [relations] ⟨graph.arena, [graph.root]⟩ := by
  cases placed : relations.position id with
  | error problem =>
      rw [Relations.graph, placed] at answered
      cases answered
  | ok position =>
      rw [Relations.graph, placed] at answered
      obtain rfl := Except.ok.inj answered
      obtain ⟨inside, -⟩ := (lawful.position_eq_ok_iff id position).mp placed
      exact
        @Forest.Sound.grow _ _ (Forest.sound_empty [relations])
          ⟨relations, position⟩ lawful (List.mem_singleton_self relations)
          inside

/-- The graph around a feature is whole. -/
theorem Relations.Lawful.whole_graph
    {relations : Relations} (lawful : relations.Lawful) {id : FeatureId}
    {graph : FeatureGraph} (answered : relations.graph id = .ok graph) :
    graph.arena.Whole [graph.root] :=
  (lawful.sound_graph answered).whole

end FeatureAtlas
