import FeatureAtlas.Proofs.Graph.Parents
import FeatureAtlas.Proofs.Graph.Portraits
import FeatureAtlas.Proofs.Output.Agreement

/-!
# Renderings are complete

A rendering of a whole arena shows each node with its neighbours once: at the
first place where it comes to it, with the neighbours right below.  Whatever
stands below an entry is drawn before the stack comes back to the entry's own
level, so the neighbours can be told from the depths alone.  The number of
entries follows from what the loop pays for each expansion.
-/

namespace FeatureAtlas.Output

open Json (Value)

/-! ## What a run draws -/

section Draws

variable {arena : Arena} {expanded final : List Nat}
variable {stack : List Entry} {drawn : List DrawnEntry}

/-- What is drawn is expanded in the end. -/
theorem Draws.place_mem_final
    (draws : Draws arena expanded stack drawn final) :
    ∀ one ∈ drawn, one.entry.place ∈ final := by
  induction draws with
  | done => simp
  | again expanded final entry stack drawn seen rest induction =>
      exact List.forall_mem_cons.mpr ⟨rest.subset seen, induction⟩
  | fresh expanded final entry stack drawn new rest induction =>
      exact
        List.forall_mem_cons.mpr ⟨rest.subset (by simp), induction⟩

/-- Everything on the stack is drawn. -/
theorem Draws.exists_drawn
    (draws : Draws arena expanded stack drawn final) :
    ∀ entry ∈ stack, ∃ one ∈ drawn, one.entry = entry := by
  induction draws with
  | done => simp
  | again expanded final entry stack drawn seen _ induction =>
      refine List.forall_mem_cons.mpr ⟨⟨_, List.mem_cons_self, rfl⟩, ?_⟩
      intro other member
      obtain ⟨one, oneIn, same⟩ := induction other member
      exact ⟨one, List.mem_cons_of_mem _ oneIn, same⟩
  | fresh expanded final entry stack drawn new _ induction =>
      refine List.forall_mem_cons.mpr ⟨⟨_, List.mem_cons_self, rfl⟩, ?_⟩
      intro other member
      obtain ⟨one, oneIn, same⟩ :=
        induction other (List.mem_append_right _ member)
      exact ⟨one, List.mem_cons_of_mem _ oneIn, same⟩

/-- A place that was expanded before is marked wherever it is drawn. -/
theorem Draws.repeated_of_mem
    (draws : Draws arena expanded stack drawn final) {place : Nat}
    (seen : place ∈ expanded) :
    ∀ one ∈ drawn, one.entry.place = place → one.repeated = true := by
  induction draws with
  | done => simp
  | again expanded final entry stack drawn _ _ induction =>
      exact List.forall_mem_cons.mpr ⟨fun _ => rfl, induction seen⟩
  | fresh expanded final entry stack drawn new _ induction =>
      refine
        List.forall_mem_cons.mpr
          ⟨fun same => absurd (same ▸ seen) new, ?_⟩
      exact induction (List.mem_append_left _ seen)

/-- What the entries of a stack hand down to their children holds of all that is drawn. -/
theorem Draws.forall_entry
    (draws : Draws arena expanded stack drawn final)
    (property : Entry → Prop)
    (inherited :
      ∀ entry, property entry →
        ∀ child ∈ entry.children arena, property child)
    (initially : ∀ entry ∈ stack, property entry) :
    ∀ one ∈ drawn, property one.entry := by
  induction draws with
  | done => simp
  | again expanded final entry stack drawn _ _ induction =>
      rw [List.forall_mem_cons] at initially ⊢
      exact ⟨initially.1, induction initially.2⟩
  | fresh expanded final entry stack drawn _ _ induction =>
      rw [List.forall_mem_cons] at initially ⊢
      refine ⟨initially.1, induction ?_⟩
      exact
        List.forall_mem_append.mpr
          ⟨inherited entry initially.1, initially.2⟩

/-- Nothing is drawn above the level of the stack. -/
theorem Draws.le_depth
    (draws : Draws arena expanded stack drawn final) {level : Nat}
    (deep : ∀ entry ∈ stack, level ≤ entry.depth) :
    ∀ one ∈ drawn, level ≤ one.entry.depth := by
  refine draws.forall_entry (level ≤ ·.depth) ?_ deep
  intro entry below child member
  rw [Entry.depth_of_mem_children member]
  exact Nat.le_succ_of_le below

/-- What is drawn at the level of the stack is the stack. -/
theorem Draws.filter_depth
    (draws : Draws arena expanded stack drawn final) {level : Nat}
    (deep : ∀ entry ∈ stack, level ≤ entry.depth) :
    (drawn.filter fun one => one.entry.depth = level).map (·.entry) =
      stack.filter fun entry => entry.depth = level := by
  induction draws with
  | done => rfl
  | again expanded final entry stack drawn _ _ induction =>
      rw [List.forall_mem_cons] at deep
      rw [List.filter_cons, List.filter_cons, ← induction deep.2]
      split <;> rfl
  | fresh expanded final entry stack drawn _ _ induction =>
      rw [List.forall_mem_cons] at deep
      have none :
          (entry.children arena).filter (fun child => child.depth = level) =
            [] := by
        rw [List.filter_eq_nil_iff]
        intro child member
        have one := Entry.depth_of_mem_children member
        simp only [decide_eq_true_eq]
        omega
      have rest := induction (List.forall_mem_append.mpr ⟨?_, deep.2⟩)
      rw [List.filter_append, none, List.nil_append] at rest
      · rw [List.filter_cons, List.filter_cons, ← rest]
        split <;> rfl
      · intro child member
        rw [Entry.depth_of_mem_children member]
        exact Nat.le_succ_of_le deep.1

/-- The top of the stack is drawn first. -/
theorem Draws.head_eq
    (draws : Draws arena expanded stack drawn final) :
    drawn.head?.map (·.entry) = stack.head? := by
  cases draws <;> rfl

theorem Entry.map_place_children (arena : Arena) (entry : Entry) :
    (entry.children arena).map (·.place) = arena.listedAt entry.place := by
  have links :=
    congrArg (·.map Prod.snd)
      (map_link_siblings entry.childTrail (neighboursAt arena entry.place))
  simpa [link, neighboursAt, Arena.listedAt, Function.comp_def,
    children_eq] using links

/-- What is drawn are places of the arena, if nothing leads out of it. -/
theorem Draws.place_lt
    (draws : Draws arena expanded stack drawn final)
    (closed :
      ∀ place < arena.size, ∀ other ∈ arena.listedAt place,
        other < arena.size)
    (inside : ∀ entry ∈ stack, entry.place < arena.size) :
    ∀ one ∈ drawn, one.entry.place < arena.size := by
  refine draws.forall_entry (·.place < arena.size) ?_ inside
  intro entry within child member
  refine closed entry.place within child.place ?_
  rw [← Entry.map_place_children]
  exact List.mem_map_of_mem member

/-! ## Where a place is expanded -/

/--
A place is expanded between what is drawn before, what is drawn below it and
what is drawn later.
-/
structure Expansion
    (arena : Arena) (place : Nat) (before : List DrawnEntry) (entry : Entry)
    (below later : List DrawnEntry) : Prop where
  here : entry.place = place
  first : ∀ one ∈ before, one.entry.place ≠ place
  again :
    ∀ one ∈ below ++ later, one.entry.place = place → one.repeated = true
  deeper : ∀ one ∈ below, entry.depth < one.entry.depth
  children :
    (below.filter fun one => one.entry.depth = entry.depth + 1).map
        (·.entry) =
      entry.children arena
  back : ∀ one ∈ later.head?, one.entry.depth ≤ entry.depth

/-- The children of the top come before the rest of a stack that is ordered by depth. -/
theorem Entry.pairwise_children_append
    {entry : Entry}
    (ordered :
      (entry :: stack).Pairwise
        fun upper lower => lower.depth ≤ upper.depth) :
    (entry.children arena ++ stack).Pairwise
      fun upper lower => lower.depth ≤ upper.depth := by
  obtain ⟨lower, ordered⟩ := List.pairwise_cons.mp ordered
  refine List.pairwise_append.mpr ⟨?_, ordered, ?_⟩
  · refine List.pairwise_of_forall_mem_list ?_
    intro left leftIn right rightIn
    rw [depth_of_mem_children leftIn, depth_of_mem_children rightIn]
  · intro child member other otherIn
    rw [depth_of_mem_children member]
    exact Nat.le_succ_of_le (lower other otherIn)

/-- A place that a run expands has its expansion in what is drawn. -/
theorem Draws.expansion
    (draws : Draws arena expanded stack drawn final)
    (ordered : stack.Pairwise fun upper lower => lower.depth ≤ upper.depth)
    {place : Nat} (new : place ∉ expanded) (met : place ∈ final) :
    ∃ before entry below later,
      drawn = before ++ ⟨entry, false⟩ :: (below ++ later) ∧
        Expansion arena place before entry below later := by
  induction draws with
  | done => exact absurd met new
  | again expanded final entry stack drawn seen _ induction =>
      obtain ⟨before, found, below, later, rfl, expansion⟩ :=
        induction (List.pairwise_cons.mp ordered).2 new met
      refine
        ⟨⟨entry, true⟩ :: before, found, below, later, rfl,
          { expansion with first := ?_ }⟩
      refine List.forall_mem_cons.mpr ⟨?_, expansion.first⟩
      exact fun same => new (same ▸ seen)
  | fresh expanded final entry stack drawn absent rest induction =>
      by_cases same : entry.place = place
      · -- The children are drawn before the stack below, which is no deeper
        -- than the entry itself.
        obtain ⟨below, later, middle, rfl, inner, outer⟩ := rest.split
        have level :
            ∀ child ∈ entry.children arena, child.depth = entry.depth + 1 :=
          fun child member => Entry.depth_of_mem_children member
        refine ⟨[], entry, below, later, rfl, same, by simp, ?_, ?_, ?_, ?_⟩
        · exact rest.repeated_of_mem (by simp [same])
        · exact
            inner.le_depth fun child member =>
              Nat.le_of_eq (level child member).symm
        · rw [inner.filter_depth fun child member =>
            Nat.le_of_eq (level child member).symm]
          exact
            List.filter_eq_self.mpr fun child member => by
              simp [level child member]
        · intro one member
          have top : one.entry ∈ stack.head? := by
            rw [← outer.head_eq]
            exact Option.mem_map_of_mem _ member
          exact
            (List.pairwise_cons.mp ordered).1 one.entry
              (List.mem_of_mem_head? top)
      · have still : place ∉ expanded ++ [entry.place] := by
          simpa [new] using Ne.symm same
        obtain ⟨before, found, below, later, rfl, expansion⟩ :=
          induction (Entry.pairwise_children_append ordered) still met
        exact
          ⟨⟨entry, false⟩ :: before, found, below, later, rfl,
            { expansion with
              first := List.forall_mem_cons.mpr ⟨same, expansion.first⟩ }⟩

end Draws

/-! ## Whole arenas -/

section Whole

variable {arena : Arena} {roots final : List Nat}
variable {drawn : List DrawnEntry}

/-- Neighbours of what is expanded are expanded. -/
theorem Expansion.listed_mem
    {place : Nat} {before below later : List DrawnEntry} {entry : Entry}
    (expansion : Expansion arena place before entry below later)
    {other : Nat} (listed : other ∈ arena.listedAt place) :
    ∃ one ∈ below, one.entry.place = other := by
  rw [← expansion.here, ← Entry.map_place_children, ← expansion.children]
    at listed
  simp only [List.mem_map, List.mem_filter] at listed
  obtain ⟨_, ⟨one, ⟨oneIn, -⟩, rfl⟩, same⟩ := listed
  exact ⟨one, oneIn, same⟩

theorem pairwise_roots (roots : List Nat) :
    (roots.map Entry.root).Pairwise
      fun upper lower => lower.depth ≤ upper.depth := by
  refine List.pairwise_map.mpr (List.pairwise_of_forall ?_)
  exact fun _ _ => Nat.le_refl 0

/-- From the roots of a whole arena every place is expanded. -/
theorem Draws.mem_final_of_whole
    (draws : Draws arena [] (roots.map .root) drawn final)
    (whole : arena.Whole roots) {place : Nat} (inside : place < arena.size) :
    place ∈ final := by
  -- A place that is no root is listed at an earlier one.
  induction place using Nat.strongRecOn with
  | ind place earlier =>
      rcases whole.rooted place inside with
        root | ⟨parent, above, listed⟩
      · obtain ⟨one, oneIn, same⟩ :=
          draws.exists_drawn _ (List.mem_map_of_mem root)
        have expanded := draws.place_mem_final one oneIn
        rwa [same] at expanded
      · have parentIn := earlier parent above (Nat.lt_trans above inside)
        obtain ⟨before, entry, below, later, rfl, expansion⟩ :=
          draws.expansion (pairwise_roots roots) List.not_mem_nil parentIn
        obtain ⟨one, oneIn, rfl⟩ := expansion.listed_mem listed
        exact draws.place_mem_final one (by simp [oneIn])

/-- The neighbours of a node as a rendering tells them. -/
def neighboursOf (arena : Arena) (node : GraphNode) :
    List (Option Relation × FeatureId) :=
  (arena.ids node.dependsOn).map (some .dependsOn, ·) ++
    (arena.ids node.dependants).map (some .dependant, ·)

/--
The neighbours of a feature, read off visits in pre-order: those right below
where it is expanded.
-/
def childrenOf (id : FeatureId) (visits : List Visit) :
    List (Option Relation × FeatureId) :=
  match visits.dropWhile fun visit => visit.feature ≠ id ∨ visit.repeated with
  | [] => []
  | visit :: later =>
    ((later.takeWhile fun other => visit.depth < other.depth).filter
        fun other => other.depth = visit.depth + 1).map
      fun other => (other.relation, other.feature)

/-- The visits below the first expansion of a feature end where its own level is reached again. -/
theorem childrenOf_append
    {id : FeatureId} {before below later : List Visit} {visit : Visit}
    (apart : ∀ other ∈ before, other.feature ≠ id)
    (here : visit.feature = id) (fresh : visit.repeated = false)
    (deeper : ∀ other ∈ below, visit.depth < other.depth)
    (back : ∀ other ∈ later.head?, other.depth ≤ visit.depth) :
    childrenOf id (before ++ visit :: (below ++ later)) =
      (below.filter fun other => other.depth = visit.depth + 1).map
        fun other => (other.relation, other.feature) := by
  have found :
      (before ++ visit :: (below ++ later)).dropWhile
          (fun other => other.feature ≠ id ∨ other.repeated) =
        visit :: (below ++ later) := by
    rw [List.dropWhile_append_of_pos
      fun other member => decide_eq_true (Or.inl (apart other member))]
    exact List.dropWhile_cons_of_neg (by simp [here, fresh])
  have stopped :
      later.takeWhile (fun other => visit.depth < other.depth) = [] := by
    cases later with
    | nil => rfl
    | cons other rest =>
        have above := Nat.not_lt.mpr (back other rfl)
        exact List.takeWhile_cons_of_neg (by simpa using above)
  rw [childrenOf, found]
  simp only
  rw [List.takeWhile_append_of_pos
    fun other member => decide_eq_true (deeper other member), stopped,
    List.append_nil]

/-- A rendering shows every node of an arena with its neighbours once. -/
structure Complete
    (arena : Arena) (roots : List Nat) (visits : List Visit) : Prop where
  distinct : arena.features.Nodup
  count : visits.length = roots.length + Drawing.neighbours arena
  within : ∀ visit ∈ visits, visit.feature ∈ arena.features
  once :
    ∀ node ∈ arena.nodes,
      ∃ before visit later,
        visits = before ++ visit :: later ∧
          visit.feature = node.feature ∧ visit.repeated = false ∧
            (∀ other ∈ before, other.feature ≠ node.feature) ∧
              ∀ other ∈ later,
                other.feature = node.feature → other.repeated = true
  children :
    ∀ node ∈ arena.nodes,
      childrenOf node.feature visits = neighboursOf arena node

/-- The neighbours of a place are read off the visits around its expansion. -/
theorem Expansion.childrenOf_eq
    {place : Nat} {before below later : List DrawnEntry} {entry : Entry}
    (expansion : Expansion arena place before entry below later)
    (apart :
      ∀ one ∈ before,
        (arena.node one.entry.place).feature ≠ (arena.node place).feature) :
    childrenOf (arena.node place).feature
        ((before ++ ⟨entry, false⟩ :: (below ++ later)).map
          (·.visit arena)) =
      neighboursOf arena (arena.node place) := by
  have links :=
    congrArg (List.map fun link => (link.1, (arena.node link.2).feature))
      (Entry.map_link_siblings entry.childTrail
        (neighboursAt arena entry.place))
  rw [List.map_append, List.map_cons, List.map_append,
    childrenOf_append ?apart ?here rfl ?deeper ?back]
  case apart =>
    exact List.forall_mem_map.mpr apart
  case here =>
    exact congrArg (fun place => (arena.node place).feature) expansion.here
  case deeper =>
    exact List.forall_mem_map.mpr expansion.deeper
  case back =>
    intro visit member
    rw [List.head?_map] at member
    obtain ⟨one, oneIn, rfl⟩ := Option.mem_map.mp member
    exact expansion.back one oneIn
  calc
    _ = (entry.children arena).map fun child =>
          (child.relation, (arena.node child.place).feature) := by
      rw [← expansion.children, List.filter_map, List.map_map, List.map_map]
      rfl
    _ = (neighboursAt arena entry.place).map fun neighbour =>
          (some neighbour.1, (arena.node neighbour.2).feature) := by
      rw [List.map_map, List.map_map] at links
      exact links
    _ = neighboursOf arena (arena.node place) := by
      rw [expansion.here]
      simp only [neighboursAt, neighboursOf, Arena.ids, List.map_append,
        List.map_map]
      rfl

/-- What is drawn of a whole arena are places of it. -/
theorem Draws.place_lt_of_whole
    (draws : Draws arena [] (roots.map .root) drawn final)
    (whole : arena.Whole roots) :
    ∀ one ∈ drawn, one.entry.place < arena.size := by
  refine draws.place_lt whole.closed ?_
  exact List.forall_mem_map.mpr whole.within

/-- Where a node is expanded, with its entries told by its feature. -/
theorem Draws.exists_expansion
    (draws : Draws arena [] (roots.map .root) drawn final)
    (whole : arena.Whole roots) {node : GraphNode}
    (member : node ∈ arena.nodes) :
    ∃ place before entry below later,
      arena.node place = node ∧
        drawn = before ++ ⟨entry, false⟩ :: (below ++ later) ∧
          Expansion arena place before entry below later ∧
            ∀ one ∈ drawn,
              (arena.node one.entry.place).feature = node.feature →
                one.entry.place = place := by
  obtain ⟨place, found⟩ := List.mem_iff_getElem?.mp member
  have inside : place < arena.size :=
    (List.getElem?_eq_some_iff.mp found).1
  have stands : arena.node place = node := by
    rw [Arena.node, Arena.node?, found, Option.getD_some]
  obtain ⟨before, entry, below, later, split, expansion⟩ :=
    draws.expansion (pairwise_roots roots) List.not_mem_nil
      (draws.mem_final_of_whole whole inside)
  refine
    ⟨place, before, entry, below, later, stands, split, expansion, ?_⟩
  intro one oneIn same
  rw [← stands] at same
  exact
    whole.place_eq_of_feature_eq (draws.place_lt_of_whole whole one oneIn)
      inside same

/-- A whole arena is shown completely. -/
theorem Draws.complete
    (draws : Draws arena [] (roots.map .root) drawn final)
    (whole : arena.Whole roots) :
    Complete arena roots (drawn.map (·.visit arena)) := by
  refine ⟨whole.once, ?count, ?within, ?once, ?children⟩
  case count =>
    have spent : waiting arena final = [] := by
      rw [List.eq_nil_iff_forall_not_mem]
      intro place waits
      obtain ⟨inside, absent⟩ := mem_waiting.mp waits
      exact absent (draws.mem_final_of_whole whole inside)
    have counted := draws.length_add
    rw [unexplored, spent, List.flatMap_nil, List.length_nil, Nat.add_zero,
      length_unexplored_nil, List.length_map] at counted
    rwa [List.length_map]
  case within =>
    refine List.forall_mem_map.mpr fun one oneIn => ?_
    have inside := draws.place_lt_of_whole whole one oneIn
    exact List.mem_of_getElem? (Arena.features_getElem?_node inside)
  case once =>
    intro node member
    obtain ⟨place, before, entry, below, later, rfl, rfl, expansion, only⟩ :=
      draws.exists_expansion whole member
    refine
      ⟨before.map (·.visit arena), DrawnEntry.visit arena ⟨entry, false⟩,
        (below ++ later).map (·.visit arena), ?_, ?_, rfl, ?_, ?_⟩
    · rw [List.map_append, List.map_cons]
    · exact congrArg (fun place => (arena.node place).feature) expansion.here
    · refine List.forall_mem_map.mpr fun one oneIn same => ?_
      exact expansion.first one oneIn (only one (by simp [oneIn]) same)
    · refine List.forall_mem_map.mpr fun one oneIn same => ?_
      refine expansion.again one oneIn (only one ?_ same)
      exact List.mem_append_right _ (List.mem_cons_of_mem _ oneIn)
  case children =>
    intro node member
    obtain ⟨place, before, entry, below, later, rfl, rfl, expansion, only⟩ :=
      draws.exists_expansion whole member
    refine expansion.childrenOf_eq fun one oneIn same => ?_
    exact expansion.first one oneIn (only one (by simp [oneIn]) same)

end Whole

/-- Both renderings of the trees of an arena end, and both show it completely. -/
structure Rendered
    (arena : Arena) (roots : List Nat) (drawn : List DrawnEntry)
    (values : List Value) : Prop where
  draws : ∃ final, Draws arena [] (roots.map .root) drawn final
  writes : ∃ final, Writes arena [] roots values final
  text : Complete arena roots (drawn.map (·.visit arena))
  value : Complete arena roots (values.flatMap (visits 0 none))

theorem Writes.rendered
    {arena : Arena} {roots final : List Nat} {values : List Value}
    (writes : Writes arena [] roots values final)
    (whole : arena.Whole roots) :
    Rendered arena roots (forestEntries arena [] roots).flatten values := by
  obtain ⟨same, draws⟩ := writes.draws_forest
  have together :
      (forestEntries arena [] roots).flatten.map (·.visit arena) =
        values.flatMap (visits 0 none) := by
    rw [List.map_flatten, same, ← List.flatMap_def]
  have complete := draws.complete whole
  exact ⟨⟨_, draws⟩, ⟨_, writes⟩, complete, together ▸ complete⟩

/--
The renderings of built graphs and forests end, however cyclic they are, after
one entry for each root and each neighbour of a node.  Each node is expanded
once, before it is shown again, with exactly its neighbours below; so the value
alone determines what every node lists.
-/
theorem renderings_complete
    {built : List Relations}
    (each :
      ∀ relations ∈ built,
        ∃ policy catalog scope ledger,
          Relations.build policy catalog scope ledger = .ok relations) :
    (∀ relations ∈ built, ∀ id graph,
      relations.graph id = .ok graph →
        Rendered graph.arena [graph.root] (graphEntries graph)
          [graphValue graph]) ∧
      Rendered (Forest.ofScopes built).arena (Forest.ofScopes built).roots
        (forestEntries (Forest.ofScopes built).arena []
          (Forest.ofScopes built).roots).flatten
        (trees (forestValue (Forest.ofScopes built))) := by
  have lawful : ∀ relations ∈ built, relations.Lawful := by
    intro relations member
    obtain ⟨policy, catalog, scope, ledger, made⟩ := each relations member
    exact Relations.lawful_of_build made
  constructor
  · intro relations member id graph answered
    obtain ⟨_, writes⟩ := writes_graphValue graph
    have rendered :=
      writes.rendered ((lawful relations member).whole_graph answered)
    have single :
        (forestEntries graph.arena [] [graph.root]).flatten =
          graphEntries graph :=
      List.flatten_singleton
    rwa [single] at rendered
  · obtain ⟨_, writes⟩ := writes_forestValue (Forest.ofScopes built)
    exact writes.rendered (Forest.whole_ofScopes lawful)

/-- The graph of a feature in a loop, and the forest of both versions. -/
theorem exists_loopGraph :
    ∃ first second graph,
      Relations.build .firstWins Relations.loopCatalog ⟨"Shop", "1"⟩
          Relations.loopLedger =
            .ok first ∧
        Relations.build .reject Relations.loopCatalog ⟨"Shop", "2"⟩ .empty =
            .ok second ∧
          first.graph ⟨"Shop", "", "Cart", "1"⟩ = .ok graph ∧
            (graphEntries graph).map (·.repeated) =
                [false, false, true, true, true] ∧
              (Forest.ofScopes [first, second]).arena.size = 2 :=
  ⟨_, _, _, rfl, rfl, rfl, rfl, rfl⟩

/-- Both are rendered completely, the loop with two expansions and three repetitions. -/
theorem renderings_complete_of_loop :
    ∃ first second graph,
      Relations.build .firstWins Relations.loopCatalog ⟨"Shop", "1"⟩
          Relations.loopLedger =
            .ok first ∧
        first.graph ⟨"Shop", "", "Cart", "1"⟩ = .ok graph ∧
          Rendered graph.arena [graph.root] (graphEntries graph)
            [graphValue graph] ∧
            (graphEntries graph).map (·.repeated) =
                [false, false, true, true, true] ∧
              Rendered (Forest.ofScopes [first, second]).arena
                (Forest.ofScopes [first, second]).roots
                (forestEntries (Forest.ofScopes [first, second]).arena []
                  (Forest.ofScopes [first, second]).roots).flatten
                (trees (forestValue (Forest.ofScopes [first, second]))) ∧
                (Forest.ofScopes [first, second]).arena.size = 2 := by
  obtain ⟨first, second, graph, firstMade, secondMade, answered, marks, two⟩ :=
    exists_loopGraph
  have each :
      ∀ relations ∈ [first, second],
        ∃ policy catalog scope ledger,
          Relations.build policy catalog scope ledger = .ok relations := by
    intro relations member
    rcases List.mem_cons.mp member with rfl | last
    · exact ⟨_, _, _, _, firstMade⟩
    · rw [List.mem_singleton.mp last]
      exact ⟨_, _, _, _, secondMade⟩
  obtain ⟨single, shared⟩ := renderings_complete each
  exact
    ⟨first, second, graph, firstMade, answered,
      single first List.mem_cons_self _ graph answered, marks, shared, two⟩

end FeatureAtlas.Output
