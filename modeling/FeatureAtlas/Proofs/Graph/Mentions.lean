import FeatureAtlas.Proofs.Distinct
import FeatureAtlas.Proofs.Graph.Parents

/-!
# The order of first mentions

The queue of a growth holds the places that are not expanded yet, all of them
and in order, and a node is made when its place is first mentioned.  So in the
graph around a feature the places are in the order in which the lists of the
nodes, read one node after the other, first mention them.  A measure of places
that grows along the lists by at most one, and is reached by them, therefore
never decreases from one place to the next.
-/

namespace FeatureAtlas

/-- The places are in the order of their first mention, behind that of the root. -/
def Arena.MentionsInOrder (arena : Arena) : Prop :=
  Distinct.ofList (0 :: (List.range arena.size).flatMap arena.listedAt) =
    List.range arena.size

/-! ## The order of the queue -/

namespace Growth

/-- A growth that has gone on, with the new places at the end of the queue and in order. -/
structure Appends (earlier later : Growth) (met : List Nat) : Prop where
  nodes : earlier.arena.nodes <+: later.arena.nodes
  indexed : later.arena.Indexed
  queue :
    later.pending.map (·.2) =
      earlier.pending.map (·.2) ++
        List.range' earlier.arena.size
          (later.arena.size - earlier.arena.size)
  met :
    Distinct.addAll (List.range earlier.arena.size) met =
      List.range later.arena.size

theorem Appends.refl {growth : Growth} (indexed : growth.arena.Indexed) :
    Appends growth growth [] where
  nodes := List.prefix_refl _
  indexed := indexed
  queue := by simp
  met := rfl

theorem Appends.size_le
    {earlier later : Growth} {met : List Nat}
    (appends : Appends earlier later met) :
    earlier.arena.size ≤ later.arena.size :=
  appends.nodes.length_le

/-- Numbers up to a second one and from there up to a third one. -/
theorem range'_append_range'
    {first second third : Nat} (left : first ≤ second)
    (right : second ≤ third) :
    List.range' first (second - first) ++
        List.range' second (third - second) =
      List.range' first (third - first) := by
  have joined :=
    @List.range'_append_1 first (second - first) (third - second)
  rw [Nat.add_sub_cancel' left] at joined
  rw [joined]
  congr 1
  omega

theorem Appends.trans
    {first second third : Growth} {met metLater : List Nat}
    (left : Appends first second met) (right : Appends second third metLater) :
    Appends first third (met ++ metLater) where
  nodes := left.nodes.trans right.nodes
  indexed := right.indexed
  queue := by
    rw [right.queue, left.queue, List.append_assoc,
      range'_append_range' left.size_le right.size_le]
  met := by
    rw [Distinct.addAll_append, left.met, right.met]

theorem appends_meet
    {relations : Relations} {growth : Growth}
    (indexed : growth.arena.Indexed) (position : Nat) :
    Appends growth (growth.meet relations position).1
      [(growth.meet relations position).2] := by
  cases looked : growth.arena.find? (relations.idAt position) with
  | some place =>
      rw [meet_of_found looked]
      have inside := Arena.lt_size_of_features ((indexed _ _).mp looked)
      refine { Appends.refl indexed with met := ?_ }
      exact Distinct.addAll_of_subset (by simpa using inside)
  | none =>
      rw [meet_of_missing looked]
      refine ⟨List.prefix_append _ _, indexed.add looked, ?_, ?_⟩
      · simp
      · rw [Arena.size_add, List.range_succ]
        refine Distinct.addAll_eq_append ?_
        rw [← List.range_succ]
        exact List.nodup_range

theorem appends_meetAll
    {relations : Relations} {growth : Growth}
    (indexed : growth.arena.Indexed) (positions : List Nat) :
    Appends growth (growth.meetAll relations positions).1
      (growth.meetAll relations positions).2 := by
  induction positions generalizing growth with
  | nil => exact Appends.refl indexed
  | cons position rest induction =>
      have first := @appends_meet relations growth indexed position
      exact first.trans (induction first.indexed)

/-- So many places are expanded; the others wait, and what was mentioned is there, in order. -/
structure InOrder (growth : Growth) (done : Nat) : Prop where
  indexed : growth.arena.Indexed
  reached : done ≤ growth.arena.size
  waiting :
    growth.pending.map (·.2) =
      List.range' done (growth.arena.size - done)
  mentioned :
    Distinct.ofList
        (0 :: (List.range done).flatMap growth.arena.listedAt) =
      List.range growth.arena.size

/-- A growth begins with one place, which waits. -/
theorem inOrder_start (relations : Relations) (position : Nat) :
    InOrder (Growth.meet relations ⟨.empty, []⟩ position).1 0 where
  indexed :=
    (@appends_meet relations ⟨.empty, []⟩ Arena.indexed_empty position).indexed
  reached := Nat.zero_le _
  waiting := rfl
  mentioned := rfl

/-- What is mentioned for the first place that waits comes behind what was mentioned before. -/
theorem InOrder.connect
    {arena : Arena} {pending : List (Nat × Nat)} {later : Growth}
    {position place done : Nat} {dependsOn dependants : List Nat}
    (ordered : InOrder ⟨arena, (position, place) :: pending⟩ done)
    (appends : Appends ⟨arena, pending⟩ later (dependsOn ++ dependants)) :
    InOrder ⟨later.arena.connect place dependsOn dependants, later.pending⟩
      (done + 1) := by
  have more := appends.size_le
  -- What waits begins with the first place that is not done.
  obtain ⟨before, rfl, waiting⟩ :
      done < arena.size ∧ place = done ∧
        pending.map (·.2) =
          List.range' (done + 1) (arena.size - (done + 1)) := by
    have waiting := ordered.waiting
    have some : arena.size - done ≠ 0 := by
      intro none
      simp [none] at waiting
    have count : arena.size - done = arena.size - (done + 1) + 1 := by omega
    rw [count, List.range'_succ, List.map_cons] at waiting
    obtain ⟨first, others⟩ := List.cons.inj waiting
    exact ⟨by omega, first, others⟩
  have inside : place < later.arena.size := Nat.lt_of_lt_of_le before more
  have lists :
      ∀ other,
        (later.arena.connect place dependsOn dependants).listedAt other =
          if place = other then dependsOn ++ dependants
          else later.arena.listedAt other := fun other =>
    Arena.listedAt_connect later.arena dependsOn dependants inside
  have earlier :
      (List.range place).flatMap
          (later.arena.connect place dependsOn dependants).listedAt =
        (List.range place).flatMap arena.listedAt := by
    refine List.flatMap_congr fun other member => ?_
    have above := List.mem_range.mp member
    rw [lists, if_neg (Nat.ne_of_gt above),
      Arena.listedAt_of_prefix appends.nodes (Nat.lt_trans above before)]
  refine ⟨appends.indexed.connect _ _ _, ?_, ?_, ?_⟩
  · rw [Arena.size_connect]
    exact inside
  · rw [Arena.size_connect, appends.queue, waiting]
    exact range'_append_range' before more
  · rw [Arena.size_connect, List.range_succ, List.flatMap_append,
      List.flatMap_singleton, lists, if_pos rfl, earlier, ← List.cons_append,
      Distinct.ofList, Distinct.addAll_append]
    refine Eq.trans ?_ appends.met
    exact congrArg (Distinct.addAll · _) ordered.mentioned

/-- A step expands the first place that waits, and mentions what it lists. -/
theorem InOrder.expand
    {relations : Relations} {arena : Arena} {position place done : Nat}
    {pending : List (Nat × Nat)}
    (ordered : InOrder ⟨arena, (position, place) :: pending⟩ done) :
    InOrder (Growth.expand relations ⟨arena, pending⟩ position place)
      (done + 1) := by
  have forward :=
    @appends_meetAll relations ⟨arena, pending⟩ ordered.indexed
      (relations.dependenciesAt position)
  exact
    ordered.connect
      (forward.trans
        (appends_meetAll forward.indexed (relations.dependentsAt position)))

/-- When nothing waits, the places are in the order of their mention. -/
theorem Drains.mentionsInOrder
    {relations : Relations} {growth : Growth} {final : Arena}
    (drains : Drains relations growth final) {done : Nat}
    (ordered : InOrder growth done) :
    final.MentionsInOrder := by
  induction drains generalizing done with
  | done arena =>
      have waiting := ordered.waiting
      have reached := ordered.reached
      have whole : done = arena.size := by
        have length := congrArg List.length waiting
        simp only [List.map_nil, List.length_nil, List.length_range'] at length reached
        omega
      have mentioned := ordered.mentioned
      rw [whole] at mentioned
      exact mentioned
  | step arena final position place pending rest induction =>
      exact induction ordered.expand

end Growth

/-! ## First mentions -/

namespace Arena

/-- Of the nodes in order, the one at a place is the first that lists another place. -/
def FirstListed (arena : Arena) (parent place : Nat) : Prop :=
  place ∈ arena.listedAt parent ∧
    ∀ earlier < parent, place ∉ arena.listedAt earlier

/-- A place other than the root is first listed at a place before it. -/
theorem Rooted.exists_firstListed
    {arena : Arena} (rooted : arena.Rooted [0]) {place : Nat}
    (inside : place < arena.size) (other : place ≠ 0) :
    ∃ parent < place, arena.FirstListed parent place := by
  have listed : ∃ parent, place ∈ arena.listedAt parent ∧ parent < place := by
    rcases rooted place inside with root | ⟨parent, above, listed⟩
    · exact absurd (List.mem_singleton.mp root) other
    · exact ⟨parent, listed, above⟩
  classical
  obtain ⟨here, above⟩ := Nat.find_spec listed
  refine ⟨Nat.find listed, above, here, ?_⟩
  intro earlier before again
  exact Nat.find_min listed before ⟨again, Nat.lt_trans before above⟩

/-- A place that comes later is not listed earlier. -/
theorem MentionsInOrder.firstListed_le
    {arena : Arena} (ordered : arena.MentionsInOrder)
    {left right leftParent rightParent : Nat}
    (before : left < right) (inside : right < arena.size)
    (other : left ≠ 0) (leftParentIn : leftParent < arena.size)
    (first : arena.FirstListed leftParent left)
    (listed : right ∈ arena.listedAt rightParent) :
    leftParent ≤ rightParent := by
  by_contra behind
  have above : rightParent < leftParent := Nat.lt_of_not_ge behind
  -- The mentions before those of `leftParent` hold `right` but not `left`.
  obtain ⟨rest, parts⟩ :
      ∃ rest,
        0 :: (List.range arena.size).flatMap arena.listedAt =
          (0 :: (List.range leftParent).flatMap arena.listedAt) ++ rest := by
    refine
      ⟨(List.range' leftParent (arena.size - leftParent)).flatMap
        arena.listedAt, ?_⟩
    rw [List.cons_append, ← List.flatMap_append, List.range_eq_range',
      List.range_eq_range']
    have joined :=
      Growth.range'_append_range' (Nat.zero_le leftParent)
        (Nat.le_of_lt leftParentIn)
    simp only [Nat.sub_zero] at joined
    rw [joined]
  have rightIn :
      right ∈ 0 :: (List.range leftParent).flatMap arena.listedAt :=
    List.mem_cons_of_mem _
      (List.mem_flatMap.mpr
        ⟨rightParent, List.mem_range.mpr above, listed⟩)
  have leftOut :
      left ∉ 0 :: (List.range leftParent).flatMap arena.listedAt := by
    intro member
    rcases List.mem_cons.mp member with root | mentioned
    · exact other root
    · rcases List.mem_flatMap.mp mentioned with ⟨earlier, range, again⟩
      exact first.2 earlier (List.mem_range.mp range) again
  have places :=
    Distinct.pairwise_idxOf_ofList
      (0 :: (List.range arena.size).flatMap arena.listedAt)
  rw [ordered, parts, List.pairwise_iff_getElem] at places
  have sooner :=
    places left right (by simpa using Nat.lt_trans before inside)
      (by simpa using inside) before
  rw [List.getElem_range, List.getElem_range,
    List.idxOf_append_of_notMem leftOut, List.idxOf_append_of_mem rightIn]
    at sooner
  have bound := List.idxOf_lt_length_of_mem rightIn
  omega

/-! ## Levels -/

/-- A measure of places that grows along the lists of an arena by at most one, from zero. -/
structure Levels (arena : Arena) (level : Nat → Nat) : Prop where
  root : level 0 = 0
  step :
    ∀ place < arena.size, ∀ other ∈ arena.listedAt place,
      level other ≤ level place + 1
  back :
    ∀ place < arena.size, place ≠ 0 →
      ∃ other < arena.size,
        place ∈ arena.listedAt other ∧ level other < level place

/-- With a place all places before it are within a distance. -/
theorem MentionsInOrder.level_le
    {arena : Arena} (ordered : arena.MentionsInOrder)
    (rooted : arena.Rooted [0]) {level : Nat → Nat}
    (levels : arena.Levels level) (bound : Nat) {left right : Nat}
    (before : left ≤ right) (inside : right < arena.size)
    (within : level right ≤ bound) :
    level left ≤ bound := by
  induction bound generalizing left right with
  | zero =>
      have root : right = 0 := by
        by_contra other
        obtain ⟨_, _, _, less⟩ := levels.back right inside other
        omega
      subst root
      rwa [Nat.le_zero.mp before]
  | succ bound induction =>
      rcases Nat.eq_zero_or_pos left with rfl | positive
      · rw [levels.root]
        exact Nat.zero_le _
      rcases Nat.eq_or_lt_of_le before with rfl | less
      · exact within
      have leftIn := Nat.lt_trans less inside
      obtain ⟨source, sourceIn, listed, nearer⟩ :=
        levels.back right inside (by omega)
      obtain ⟨parent, above, first⟩ :=
        rooted.exists_firstListed leftIn (Nat.ne_of_gt positive)
      have parentIn := Nat.lt_trans above leftIn
      have earlier : parent ≤ source :=
        ordered.firstListed_le less inside (Nat.ne_of_gt positive) parentIn
          first listed
      -- `parent` comes no later than `source`, which is within a smaller bound.
      have near : level parent ≤ bound :=
        induction earlier sourceIn (by omega)
      exact (levels.step parent parentIn left first.1).trans (by omega)

end Arena

end FeatureAtlas
