import FeatureAtlas.Graph.Expansion
import FeatureAtlas.Proofs.Graph.Arena

/-!
# Expansion by a work queue

Growing an arena alternates between taking a node from the queue and meeting
its neighbours.  The invariant says that every node is either waiting or
expanded.  The work that is left, the waiting nodes together with the members
without a node, shrinks with each step, so the queue runs empty; and all that
is ever met is connected to where the growth began.
-/

namespace FeatureAtlas

/-- A node shows what one of several collections of relations says. -/
def Arena.Settled
    (family : List Relations) (arena : Arena) (node : GraphNode) : Prop :=
  ∃ relations ∈ family, arena.Expanded relations node

theorem Arena.Settled.mono
    {family : List Relations} {earlier later : Arena}
    (grown : earlier.features <+: later.features) {node : GraphNode}
    (settled : earlier.Settled family node) :
    later.Settled family node := by
  rcases settled with ⟨relations, member, expanded⟩
  exact ⟨relations, member, expanded.mono grown⟩

/-- An arena in which nothing is left to do. -/
structure Arena.Finished (family : List Relations) (arena : Arena) : Prop where
  indexed : arena.Indexed
  settled : ∀ node ∈ arena.nodes, arena.Settled family node

namespace Growth

/-- The queue is worked off, for as many steps as it takes. -/
inductive Drains (relations : Relations) : Growth → Arena → Prop where
  | done (arena : Arena) : Drains relations ⟨arena, []⟩ arena
  | step
      (arena final : Arena) (position place : Nat)
      (pending : List (Nat × Nat))
      (rest :
        Drains relations
          (expand relations ⟨arena, pending⟩ position place) final) :
      Drains relations ⟨arena, (position, place) :: pending⟩ final

/--
What holds between steps.  The nodes in `held` have left the queue but are not
expanded yet.
-/
structure Steady
    (family : List Relations) (relations : Relations)
    (held : List (Nat × Nat)) (growth : Growth) : Prop where
  indexed : growth.arena.Indexed
  standing :
    ∀ entry ∈ held ++ growth.pending,
      entry.1 < relations.size ∧
        growth.arena.features[entry.2]? = some (relations.idAt entry.1)
  apart : ((held ++ growth.pending).map (·.2)).Nodup
  settled :
    ∀ place node, growth.arena.node? place = some node →
      place ∈ (held ++ growth.pending).map (·.2) ∨
        growth.arena.Settled family node

/-! ## Meeting members -/

section Meeting

variable {family : List Relations} {relations : Relations}
variable {held : List (Nat × Nat)} {growth : Growth} {position : Nat}

theorem meet_of_found
    {place : Nat}
    (found : growth.arena.find? (relations.idAt position) = some place) :
    growth.meet relations position = (growth, place) := by
  simp only [meet, found]

theorem meet_of_missing
    (missing : growth.arena.find? (relations.idAt position) = none) :
    growth.meet relations position =
      (⟨growth.arena.add (relations.idAt position),
          growth.pending ++ [(position, growth.arena.size)]⟩,
        growth.arena.size) := by
  simp only [meet, missing]

theorem features_prefix_meet
    (relations : Relations) (growth : Growth) (position : Nat) :
    growth.arena.features <+:
      (growth.meet relations position).1.arena.features := by
  cases looked : growth.arena.find? (relations.idAt position) with
  | some place =>
      refine ⟨[], ?_⟩
      rw [meet_of_found looked, List.append_nil]
  | none =>
      rw [meet_of_missing looked, Arena.features_add]
      exact List.prefix_append _ _

/-- A node that is added waits at the end of the queue. -/
theorem Steady.add
    (steady : Steady family relations held growth)
    (inside : position < relations.size)
    (missing : growth.arena.find? (relations.idAt position) = none) :
    Steady family relations held
      ⟨growth.arena.add (relations.idAt position),
        growth.pending ++ [(position, growth.arena.size)]⟩ where
  indexed := steady.indexed.add missing
  standing := by
    intro entry member
    rw [← List.append_assoc] at member
    rcases List.mem_append.mp member with old | new
    · obtain ⟨entryInside, found⟩ := steady.standing entry old
      refine ⟨entryInside, Arena.feature_mono ?_ found⟩
      rw [Arena.features_add]
      exact List.prefix_append _ _
    · rw [List.mem_singleton.mp new]
      refine ⟨inside, ?_⟩
      simp [← Arena.length_features]
  apart := by
    rw [← List.append_assoc, List.map_append]
    refine steady.apart.append (List.nodup_singleton _) ?_
    intro place waiting fresh
    rcases List.mem_map.mp waiting with ⟨entry, member, rfl⟩
    have found := (steady.standing entry member).2
    have before := (List.getElem?_eq_some_iff.mp found).1
    simp only [List.map_singleton, List.mem_singleton] at fresh
    rw [fresh, Arena.length_features] at before
    exact Nat.lt_irrefl _ before
  settled := by
    intro place node found
    rw [← List.append_assoc, List.map_append, List.mem_append]
    simp only [Arena.node?, Arena.add] at found
    rcases Nat.lt_or_ge place growth.arena.nodes.length with before | behind
    · rw [List.getElem?_append_left before] at found
      rcases steady.settled place node found with waiting | settled
      · exact Or.inl (Or.inl waiting)
      · refine Or.inr (settled.mono ?_)
        rw [Arena.features_add]
        exact List.prefix_append _ _
    · have last : place = growth.arena.nodes.length := by
        have bound := (List.getElem?_eq_some_iff.mp found).1
        simp only [List.length_append, List.length_singleton] at bound
        exact Nat.le_antisymm (Nat.le_of_lt_succ bound) behind
      subst last
      exact Or.inl (Or.inr (by simp [Arena.size]))

theorem Steady.meet
    (steady : Steady family relations held growth)
    (inside : position < relations.size) :
    Steady family relations held (growth.meet relations position).1 := by
  cases looked : growth.arena.find? (relations.idAt position) with
  | some place =>
      rw [meet_of_found looked]
      exact steady
  | none =>
      rw [meet_of_missing looked]
      exact steady.add inside looked

/-- The place that meeting gives is that of the member's node. -/
theorem Steady.feature_meet
    (steady : Steady family relations held growth) :
    (growth.meet relations position).1.arena.features[
        (growth.meet relations position).2]? =
      some (relations.idAt position) := by
  cases looked : growth.arena.find? (relations.idAt position) with
  | some place =>
      rw [meet_of_found looked]
      exact (steady.indexed _ _).mp looked
  | none =>
      rw [meet_of_missing looked, Arena.features_add,
        ← Arena.length_features]
      simp

theorem mem_features_meet
    {id : FeatureId}
    (member : id ∈ (growth.meet relations position).1.arena.features) :
    id ∈ growth.arena.features ∨ id = relations.idAt position := by
  cases looked : growth.arena.find? (relations.idAt position) with
  | some place =>
      rw [meet_of_found looked] at member
      exact Or.inl member
  | none =>
      rw [meet_of_missing looked, Arena.features_add] at member
      simpa using member

end Meeting

/-! ## Meeting several members -/

section MeetingAll

variable {family : List Relations} {relations : Relations}
variable {held : List (Nat × Nat)}

theorem Steady.meetAll
    {growth : Growth} {positions : List Nat}
    (steady : Steady family relations held growth)
    (inside : ∀ position ∈ positions, position < relations.size) :
    Steady family relations held (growth.meetAll relations positions).1 := by
  induction positions generalizing growth with
  | nil => exact steady
  | cons position rest induction =>
      have others : ∀ position ∈ rest, position < relations.size :=
        fun position member => inside position (by simp [member])
      exact induction (steady.meet (inside position (by simp))) others

theorem features_prefix_meetAll
    (relations : Relations) (growth : Growth) (positions : List Nat) :
    growth.arena.features <+:
      (growth.meetAll relations positions).1.arena.features := by
  induction positions generalizing growth with
  | nil => exact List.prefix_refl _
  | cons position rest induction =>
      exact (features_prefix_meet relations growth position).trans
        (induction (growth.meet relations position).1)

/-- The places that meeting gives lead to the members that were met. -/
theorem Steady.leadTo_meetAll
    {growth : Growth} {positions : List Nat}
    (steady : Steady family relations held growth)
    (inside : ∀ position ∈ positions, position < relations.size) :
    (growth.meetAll relations positions).1.arena.LeadTo
      (growth.meetAll relations positions).2
      (positions.map relations.idAt) := by
  induction positions generalizing growth with
  | nil => rfl
  | cons position rest induction =>
      have others : ∀ position ∈ rest, position < relations.size :=
        fun position member => inside position (by simp [member])
      have next := steady.meet (inside position (by simp))
      have first :=
        Arena.feature_mono
          (features_prefix_meetAll relations
            (growth.meet relations position).1 rest)
          steady.feature_meet
      exact congrArg₂ List.cons first (induction next others)

theorem mem_features_meetAll
    {growth : Growth} {positions : List Nat} {id : FeatureId}
    (member :
      id ∈ (growth.meetAll relations positions).1.arena.features) :
    id ∈ growth.arena.features ∨
      id ∈ positions.map relations.idAt := by
  induction positions generalizing growth with
  | nil => exact Or.inl member
  | cons position rest induction =>
      rw [List.map_cons, List.mem_cons]
      rcases induction member with before | later
      · rcases mem_features_meet before with old | new
        · exact Or.inl old
        · exact Or.inr (Or.inl new)
      · exact Or.inr (Or.inr later)

end MeetingAll

/-! ## One step of the queue -/

section Expanding

variable {family : List Relations} {relations : Relations}
variable {growth : Growth} {position place : Nat}

/-- Filling in the lists of the node that is held settles it. -/
theorem Steady.connect
    (steady : Steady family relations [(position, place)] growth)
    (member : relations ∈ family) {dependsOn dependants : List Nat}
    (leadsOn :
      growth.arena.LeadTo dependsOn
        ((relations.dependenciesAt position).map relations.idAt))
    (leadsBack :
      growth.arena.LeadTo dependants
        ((relations.dependentsAt position).map relations.idAt)) :
    Steady family relations []
      ⟨growth.arena.connect place dependsOn dependants, growth.pending⟩ where
  indexed := steady.indexed.connect place dependsOn dependants
  standing := by
    intro entry waiting
    rw [Arena.features_connect]
    exact steady.standing entry (by simpa using Or.inr waiting)
  apart := by
    have apart := steady.apart
    simp only [List.singleton_append, List.map_cons, List.nodup_cons] at apart
    exact apart.2
  settled := by
    have grown :
        growth.arena.features <+:
          (growth.arena.connect place dependsOn dependants).features := by
      refine ⟨[], ?_⟩
      rw [Arena.features_connect, List.append_nil]
    intro other node found
    rw [Arena.node?_connect] at found
    rcases Option.map_eq_some_iff.mp found with ⟨before, standing, rfl⟩
    obtain ⟨inside, placed⟩ := steady.standing (position, place) (by simp)
    by_cases here : place = other
    · subst here
      refine Or.inr ⟨relations, member, position, inside, ?_, ?_, ?_⟩
      · rw [Arena.features_getElem?, standing] at placed
        simpa using (Option.some.inj placed).symm
      · simpa using leadsOn.mono grown
      · simpa using leadsBack.mono grown
    · rw [if_neg here]
      rcases steady.settled other before standing with waiting | settled
      · simp only [List.singleton_append, List.map_cons,
          List.mem_cons] at waiting
        rcases waiting with same | waiting
        · exact absurd same.symm here
        · exact Or.inl waiting
      · exact Or.inr (settled.mono grown)

theorem Steady.expand
    {arena : Arena} {pending : List (Nat × Nat)}
    (lawful : relations.Lawful) (member : relations ∈ family)
    (steady :
      Steady family relations [] ⟨arena, (position, place) :: pending⟩) :
    Steady family relations []
      (expand relations ⟨arena, pending⟩ position place) := by
  have held :
      Steady family relations [(position, place)] ⟨arena, pending⟩ :=
    ⟨steady.indexed, steady.standing, steady.apart, steady.settled⟩
  have forward :
      ∀ target ∈ relations.dependenciesAt position,
        target < relations.size :=
    lawful.target_lt position
  have backward :
      ∀ source ∈ relations.dependentsAt position,
        source < relations.size :=
    fun source listed => lawful.dependent_lt listed
  have first := held.meetAll forward
  have second := first.meetAll backward
  have leadsOn :=
    (held.leadTo_meetAll forward).mono
      (features_prefix_meetAll relations _
        (relations.dependentsAt position))
  exact second.connect member leadsOn (first.leadTo_meetAll backward)

theorem features_prefix_expand
    (relations : Relations) (growth : Growth) (position place : Nat) :
    growth.arena.features <+:
      (expand relations growth position place).arena.features := by
  simp only [Growth.expand, Arena.features_connect]
  exact (features_prefix_meetAll relations growth _).trans
    (features_prefix_meetAll relations _ _)

/-- A step meets neighbours of the member that it expands and nothing else. -/
theorem mem_features_expand
    {id : FeatureId}
    (member :
      id ∈ (expand relations growth position place).arena.features) :
    id ∈ growth.arena.features ∨
      ∃ neighbour,
        relations.idAt neighbour = id ∧
          (neighbour ∈ relations.dependenciesAt position ∨
            neighbour ∈ relations.dependentsAt position) := by
  simp only [Growth.expand, Arena.features_connect] at member
  rcases mem_features_meetAll member with before | dependent
  · rcases mem_features_meetAll before with old | dependency
    · exact Or.inl old
    · rcases List.mem_map.mp dependency with ⟨neighbour, listed, same⟩
      exact Or.inr ⟨neighbour, same, Or.inl listed⟩
  · rcases List.mem_map.mp dependent with ⟨neighbour, listed, same⟩
    exact Or.inr ⟨neighbour, same, Or.inr listed⟩

end Expanding

/-! ## The work that is left -/

/-- The number of members that have no node yet. -/
def unmet (relations : Relations) (arena : Arena) : Nat :=
  (List.range relations.size).countP fun position =>
    relations.idAt position ∉ arena.features

/-- The nodes that wait and those that are yet to be made. -/
def work (relations : Relations) (growth : Growth) : Nat :=
  growth.pending.length + unmet relations growth.arena

theorem unmet_add_lt
    {relations : Relations} {arena : Arena} {position : Nat}
    (inside : position < relations.size)
    (absent : relations.idAt position ∉ arena.features) :
    unmet relations (arena.add (relations.idAt position)) <
      unmet relations arena := by
  simp only [unmet, List.countP_eq_length_filter]
  have narrower :
      ((List.range relations.size).filter fun other =>
          relations.idAt other ∉
            (arena.add (relations.idAt position)).features) =
        ((List.range relations.size).filter fun other =>
          relations.idAt other ∉ arena.features).filter fun other =>
            relations.idAt other ≠ relations.idAt position := by
    rw [List.filter_filter]
    apply List.filter_congr
    intro other _
    simp only [Arena.features_add, List.mem_append, List.mem_singleton]
    grind
  rw [narrower]
  apply List.length_filter_lt_length_iff_exists.mpr
  refine ⟨position, ?_, by simp⟩
  simpa using ⟨inside, absent⟩

theorem work_meet_le
    {relations : Relations} {growth : Growth} {position : Nat}
    (indexed : growth.arena.Indexed) (inside : position < relations.size) :
    work relations (growth.meet relations position).1 ≤
      work relations growth := by
  cases looked : growth.arena.find? (relations.idAt position) with
  | some place =>
      apply Nat.le_of_eq
      rw [meet_of_found looked]
  | none =>
      rw [meet_of_missing looked]
      have fewer := unmet_add_lt inside (indexed.not_mem looked)
      simp only [work, List.length_append, List.length_singleton]
      omega

theorem work_meetAll_le
    {family : List Relations} {relations : Relations}
    {held : List (Nat × Nat)} {growth : Growth} {positions : List Nat}
    (steady : Steady family relations held growth)
    (inside : ∀ position ∈ positions, position < relations.size) :
    work relations (growth.meetAll relations positions).1 ≤
      work relations growth := by
  induction positions generalizing growth with
  | nil => exact Nat.le_refl _
  | cons position rest induction =>
      have here := inside position (by simp)
      have others : ∀ position ∈ rest, position < relations.size :=
        fun position member => inside position (by simp [member])
      exact Nat.le_trans (induction (steady.meet here) others)
        (work_meet_le steady.indexed here)

/-- Each step of the queue leaves less work. -/
theorem work_expand_lt
    {family : List Relations} {relations : Relations}
    {arena : Arena} {pending : List (Nat × Nat)} {position place : Nat}
    (lawful : relations.Lawful)
    (steady :
      Steady family relations [] ⟨arena, (position, place) :: pending⟩) :
    work relations (expand relations ⟨arena, pending⟩ position place) <
      work relations ⟨arena, (position, place) :: pending⟩ := by
  have held :
      Steady family relations [(position, place)] ⟨arena, pending⟩ :=
    ⟨steady.indexed, steady.standing, steady.apart, steady.settled⟩
  have forward := work_meetAll_le held (lawful.target_lt position)
  have backward :=
    work_meetAll_le (held.meetAll (lawful.target_lt position))
      fun source (listed : source ∈ relations.dependentsAt position) =>
        lawful.dependent_lt listed
  have connected :
      work relations (expand relations ⟨arena, pending⟩ position place) =
        work relations
          (((meetAll relations ⟨arena, pending⟩
              (relations.dependenciesAt position)).1).meetAll relations
            (relations.dependentsAt position)).1 := by
    simp only [work, Growth.expand, unmet, Arena.features_connect]
  have shorter :
      work relations ⟨arena, pending⟩ + 1 =
        work relations ⟨arena, (position, place) :: pending⟩ := by
    simp only [work, List.length_cons]
    omega
  omega

/-! ## Whole runs -/

/-- When nothing waits, every node is expanded. -/
theorem Steady.finished
    {family : List Relations} {relations : Relations} {arena : Arena}
    (steady : Steady family relations [] ⟨arena, []⟩) :
    arena.Finished family where
  indexed := steady.indexed
  settled := by
    intro node inside
    obtain ⟨place, found⟩ := List.mem_iff_getElem?.mp inside
    rcases steady.settled place node found with waiting | settled
    · simp at waiting
    · exact settled

/-- With as many steps as there is work the queue runs empty. -/
theorem Steady.run
    {family : List Relations} {relations : Relations} {growth : Growth}
    (lawful : relations.Lawful) (member : relations ∈ family)
    (steady : Steady family relations [] growth)
    {steps : Nat} (enough : work relations growth ≤ steps) :
    (growth.run relations steps).arena.Finished family ∧
      Drains relations growth (growth.run relations steps).arena ∧
        growth.arena.features <+:
          (growth.run relations steps).arena.features := by
  induction steps generalizing growth with
  | zero =>
      rcases growth with ⟨arena, pending⟩
      have empty : pending = [] := by
        apply List.eq_nil_of_length_eq_zero
        simp only [work] at enough
        omega
      subst empty
      exact ⟨steady.finished, .done arena, List.prefix_refl _⟩
  | succ steps induction =>
      rcases growth with ⟨arena, pending⟩
      cases pending with
      | nil => exact ⟨steady.finished, .done arena, List.prefix_refl _⟩
      | cons entry pending =>
          rcases entry with ⟨position, place⟩
          have less := work_expand_lt lawful steady
          obtain ⟨finished, drains, grown⟩ :=
            induction (steady.expand lawful member)
              (by omega)
          exact
            ⟨finished, .step arena _ position place pending drains,
              (features_prefix_expand relations ⟨arena, pending⟩ position
                place).trans grown⟩

/-- A run stays within whatever is closed under the one-hop relations. -/
theorem Steady.features_run
    {family : List Relations} {relations : Relations} {growth : Growth}
    (lawful : relations.Lawful) (member : relations ∈ family)
    (steady : Steady family relations [] growth)
    (region : FeatureId → Prop)
    (closed :
      ∀ position < relations.size, region (relations.idAt position) →
        ∀ other, relations.Adjacent (relations.idAt position) other →
          region other)
    (within : ∀ id ∈ growth.arena.features, region id) (steps : Nat) :
    ∀ id ∈ (growth.run relations steps).arena.features, region id := by
  induction steps generalizing growth with
  | zero => exact within
  | succ steps induction =>
      rcases growth with ⟨arena, pending⟩
      cases pending with
      | nil => exact within
      | cons entry pending =>
          rcases entry with ⟨position, place⟩
          refine induction (steady.expand lawful member) ?_
          obtain ⟨inside, standing⟩ :=
            steady.standing (position, place) (by simp)
          have here := within _ (List.mem_of_getElem? standing)
          intro id met
          rcases mem_features_expand met with old | new
          · exact within id old
          · exact closed position inside here id
              ((lawful.adjacent_idAt_iff inside id).mpr new)

end Growth

/-! ## Growing into an arena -/

/-- Only members are adjacent to a member, and they are of one scope. -/
theorem Relations.Lawful.scope_of_adjacent
    {relations : Relations} (lawful : relations.Lawful)
    {left right : FeatureId} (adjacent : relations.Adjacent left right) :
    left.scope = relations.scope ∧ right.scope = relations.scope := by
  have scopes :
      ∀ source target, relations.DependsOn source target →
        source.scope = relations.scope ∧
          target.scope = relations.scope := by
    intro source target depends
    obtain ⟨first, second, rfl, rfl, listed⟩ :=
      (lawful.dependsOn_iff source target).mp depends
    exact
      ⟨lawful.idAt_scope (lawful.source_lt first second listed),
        lawful.idAt_scope (lawful.target_lt first second listed)⟩
  rcases adjacent with forward | backward
  · exact scopes left right forward
  · exact (scopes right left backward).symm

/-- Lawful relations of which no two are of the same scope. -/
structure Relations.Family (family : List Relations) : Prop where
  lawful : ∀ relations ∈ family, relations.Lawful
  apart :
    ∀ left ∈ family, ∀ right ∈ family,
      left.scope = right.scope → left = right

namespace Arena.Finished

variable {family : List Relations} {arena : Arena}

/-- A finished arena holds whatever is adjacent to a feature in it. -/
theorem mem_of_adjacent
    (finished : arena.Finished family)
    (distinct : Relations.Family family)
    {relations : Relations} (member : relations ∈ family)
    {id other : FeatureId} (present : id ∈ arena.features)
    (adjacent : relations.Adjacent id other) :
    other ∈ arena.features := by
  rcases List.mem_map.mp present with ⟨node, nodeIn, rfl⟩
  obtain ⟨shown, shownIn, expanded⟩ := finished.settled node nodeIn
  have same : shown = relations := by
    refine distinct.apart shown shownIn relations member ?_
    rcases expanded with ⟨position, inside, here, -, -⟩
    have shownScope :=
      (distinct.lawful shown shownIn).idAt_scope inside
    rw [← shownScope, here]
    exact ((distinct.lawful relations member).scope_of_adjacent adjacent).1
  subst same
  exact expanded.mem_of_adjacent (distinct.lawful shown shownIn) adjacent

/-- A finished arena holds whatever is connected to a feature in it. -/
theorem mem_of_connected
    (finished : arena.Finished family)
    (distinct : Relations.Family family)
    {relations : Relations} (member : relations ∈ family)
    {id other : FeatureId} (present : id ∈ arena.features)
    (connected : relations.Connected id other) :
    other ∈ arena.features := by
  induction connected with
  | refl => exact present
  | tail _ adjacent induction =>
      exact finished.mem_of_adjacent distinct member induction adjacent

/-- Before a member is met nothing waits. -/
theorem idle
    (finished : arena.Finished family) (relations : Relations) :
    Growth.Steady family relations [] ⟨arena, []⟩ := by
  refine ⟨finished.indexed, by simp, by simp, ?_⟩
  intro place node found
  exact Or.inr (finished.settled node (List.mem_of_getElem? found))

/-- Growing around a member ends, in an arena that is finished again. -/
theorem growInto
    (finished : arena.Finished family) {relations : Relations}
    (lawful : relations.Lawful) (member : relations ∈ family)
    {position : Nat} (inside : position < relations.size) :
    (relations.growInto arena position).1.Finished family ∧
      Growth.Drains relations (Growth.meet relations ⟨arena, []⟩ position).1
        (relations.growInto arena position).1 ∧
        arena.features <+: (relations.growInto arena position).1.features ∧
          (relations.growInto arena position).1.features[
              (relations.growInto arena position).2]? =
            some (relations.idAt position) := by
  have idle := finished.idle relations
  have met := idle.meet inside
  have enough :
      Growth.work relations (Growth.meet relations ⟨arena, []⟩ position).1 ≤
        relations.size := by
    calc
      _ ≤ Growth.work relations ⟨arena, []⟩ :=
        Growth.work_meet_le finished.indexed inside
      _ = Growth.unmet relations arena := Nat.zero_add _
      _ ≤ (List.range relations.size).length := List.countP_le_length
      _ = relations.size := List.length_range
  obtain ⟨done, drains, grown⟩ := met.run lawful member enough
  have whole := (Growth.features_prefix_meet relations ⟨arena, []⟩ position)
    |>.trans grown
  exact ⟨done, drains, whole, Arena.feature_mono grown idle.feature_meet⟩

end Arena.Finished

/-- What growing around a member makes of a finished arena. -/
structure Relations.Grown
    (family : List Relations) (relations : Relations)
    (arena : Arena) (position : Nat) : Prop where
  drains :
    Growth.Drains relations (Growth.meet relations ⟨arena, []⟩ position).1
      (relations.growInto arena position).1
  finished : (relations.growInto arena position).1.Finished family
  grown :
    arena.features <+: (relations.growInto arena position).1.features
  root :
    (relations.growInto arena position).1.features[
        (relations.growInto arena position).2]? =
      some (relations.idAt position)
  mem_iff :
    ∀ id,
      id ∈ (relations.growInto arena position).1.features ↔
        id ∈ arena.features ∨
          relations.Connected (relations.idAt position) id

/-- Growing adds the connected features to a finished arena and finishes it. -/
theorem Arena.Finished.grow
    {family : List Relations} {arena : Arena}
    (finished : arena.Finished family)
    (distinct : Relations.Family family)
    {relations : Relations} (member : relations ∈ family)
    {position : Nat} (inside : position < relations.size) :
    relations.Grown family arena position := by
  have lawful := distinct.lawful relations member
  have met := (finished.idle relations).meet inside
  obtain ⟨done, drains, whole, root⟩ :=
    finished.growInto lawful member inside
  refine ⟨drains, done, whole, root, ?_⟩
  intro id
  constructor
  · refine
      met.features_run lawful member
        (fun other =>
          other ∈ arena.features ∨
            relations.Connected (relations.idAt position) other)
        ?_ ?_ relations.size id
    · intro other _ present next adjacent
      rcases present with old | connected
      · exact Or.inl
          (finished.mem_of_adjacent distinct member old adjacent)
      · exact Or.inr (connected.tail adjacent)
    · intro other present
      rcases Growth.mem_features_meet present with old | rfl
      · exact Or.inl old
      · exact Or.inr .refl
  · rintro (old | connected)
    · exact whole.subset old
    · exact done.mem_of_connected distinct member (List.mem_of_getElem? root)
        connected

end FeatureAtlas
