import FeatureAtlas.Graph.Cycles
import FeatureAtlas.Proofs.Lookups.Construction

/-!
# Strict look-ups: queries and cycles

The one-hop queries, the roots and the cycles in strict form.  All of them
look up members at positions that the relations store, or at positions below
the number of members; so on relations that keep their positions in range they
have results.  A search for components is free in what it lists, as long as
it lists nodes of the digraph that it is given.
-/

namespace FeatureAtlas

namespace Relations

variable {relations : Relations}

/-! ## Look-ups at positions of members -/

namespace InRange

theorem dependencies_getElem?
    (inRange : relations.InRange) {position : Nat}
    (inside : position < relations.size) :
    relations.dependencies[position]? =
      some (relations.dependenciesAt position) := by
  rw [← inRange.length_dependencies] at inside
  rw [dependenciesAt, List.getElem?_eq_getElem inside]
  rfl

theorem dependents_getElem?
    (inRange : relations.InRange) {position : Nat}
    (inside : position < relations.size) :
    relations.dependents[position]? =
      some (relations.dependentsAt position) := by
  rw [← inRange.length_dependents] at inside
  rw [dependentsAt, List.getElem?_eq_getElem inside]
  rfl

theorem dependenciesAt_lt
    (inRange : relations.InRange) {position target : Nat}
    (inside : position < relations.size)
    (listed : target ∈ relations.dependenciesAt position) :
    target < relations.size :=
  inRange.target_lt _
    (List.mem_of_getElem? (inRange.dependencies_getElem? inside)) target
    listed

theorem dependentsAt_lt
    (inRange : relations.InRange) {position source : Nat}
    (inside : position < relations.size)
    (listed : source ∈ relations.dependentsAt position) :
    source < relations.size :=
  inRange.source_lt _
    (List.mem_of_getElem? (inRange.dependents_getElem? inside)) source
    listed

end InRange

/-- Members at positions in range are all found. -/
theorem mapM_member?
    {positions : List Nat}
    (inside : ∀ position ∈ positions, position < relations.size) :
    positions.mapM relations.member? =
      some (positions.filterMap relations.member?) :=
  Strict.mapM_eq_filterMap fun position member =>
    exists_member? (inside position member)

/-- The identities of the members at positions, all of which are found. -/
def idsAt? (relations : Relations) (positions : List Nat) :
    Option (List FeatureId) := do
  let features ← positions.mapM relations.member?
  some (features.map (·.id))

theorem idsAt?_eq
    {positions : List Nat}
    (inside : ∀ position ∈ positions, position < relations.size) :
    relations.idsAt? positions = some (positions.map relations.idAt) := by
  rw [idsAt?, mapM_member? inside]
  exact congrArg some (map_id_filterMap_member? inside)

/-! ## Owners, one-hop queries and roots -/

/-- The owner of a signature, read from the member at its position. -/
def owner? (relations : Relations) (signature : String) :
    Option (Option FeatureId) :=
  match relations.ownership.position? signature with
  | none => some none
  | some position => do
    let feature ← relations.member? position
    some (some feature.id)

/-- The members that a list for each position names for a feature. -/
def neighbours?
    (relations : Relations) (lists : List (List Nat)) (id : FeatureId) :
    Option (Except Error (List Feature)) :=
  match relations.position id with
  | .error problem => some (.error problem)
  | .ok position => do
    let positions ← lists[position]?
    let features ← positions.mapM relations.member?
    some (.ok features)

def directDependencies? (relations : Relations) (id : FeatureId) :
    Option (Except Error (List Feature)) :=
  relations.neighbours? relations.dependencies id

def directDependents? (relations : Relations) (id : FeatureId) :
    Option (Except Error (List Feature)) :=
  relations.neighbours? relations.dependents id

def rootPositions? (relations : Relations) : Option (List Nat) :=
  Strict.keep
    (fun position => relations.dependents[position]?.map (·.isEmpty))
    (List.range relations.dependents.length)

def roots? (relations : Relations) : Option (List Feature) := do
  (← relations.rootPositions?).mapM relations.member?

/-- The feature at the position of an owner is the owner. -/
theorem InRange.owner?_eq
    (inRange : relations.InRange) (signature : String) :
    relations.owner? signature =
      some (relations.ownership.owner? signature) := by
  rw [owner?, Ownership.owner?, Ownership.position?]
  cases owned : relations.ownership.owners.get? signature with
  | none => rfl
  | some owner =>
      obtain ⟨feature, located, same⟩ :=
        Option.map_eq_some_iff.mp (inRange.owned signature owner owned)
      rw [Option.map_some, Option.map_some, ← same]
      dsimp only
      rw [member?, located]
      rfl

/-- A position that is answered is one of a member. -/
theorem InRange.lt_of_position
    (inRange : relations.InRange) {id : FeatureId} {position : Nat}
    (placed : relations.position id = .ok position) :
    position < relations.size := by
  rw [Relations.position] at placed
  cases found : relations.membership.positions.get? id with
  | none =>
      rw [found] at placed
      cases placed
  | some other =>
      rw [found] at placed
      obtain rfl := Except.ok.inj placed
      exact inRange.position_lt id other found

/-- Lists of members for each position lead to answers for each feature. -/
theorem InRange.neighbours?_eq
    (inRange : relations.InRange) {lists : List (List Nat)}
    {listAt : Nat → List Nat}
    (found :
      ∀ position < relations.size,
        lists[position]? = some (listAt position))
    (within :
      ∀ position < relations.size, ∀ other ∈ listAt position,
        other < relations.size)
    (id : FeatureId) :
    relations.neighbours? lists id =
      some
        ((relations.position id).bind fun position =>
          .ok ((listAt position).filterMap relations.member?)) := by
  rw [neighbours?]
  cases placed : relations.position id with
  | error problem => rfl
  | ok position =>
      have inside := inRange.lt_of_position placed
      dsimp only
      rw [found position inside, Option.bind_eq_bind, Option.bind_some,
        mapM_member? (within position inside)]
      rfl

theorem InRange.directDependencies?_eq
    (inRange : relations.InRange) (id : FeatureId) :
    relations.directDependencies? id =
      some (relations.directDependencies id) :=
  inRange.neighbours?_eq
    (fun _ inside => inRange.dependencies_getElem? inside)
    (fun _ inside _ listed => inRange.dependenciesAt_lt inside listed) id

theorem InRange.directDependents?_eq
    (inRange : relations.InRange) (id : FeatureId) :
    relations.directDependents? id =
      some (relations.directDependents id) :=
  inRange.neighbours?_eq
    (fun _ inside => inRange.dependents_getElem? inside)
    (fun _ inside _ listed => inRange.dependentsAt_lt inside listed) id

theorem InRange.rootPositions?_eq (inRange : relations.InRange) :
    relations.rootPositions? = some relations.rootPositions := by
  rw [rootPositions?, rootPositions, inRange.length_dependents]
  refine Strict.keep_eq_filter fun position listed => ?_
  rw [inRange.dependents_getElem? (List.mem_range.mp listed)]
  rfl

theorem InRange.roots?_eq (inRange : relations.InRange) :
    relations.roots? = some relations.roots := by
  rw [roots?, inRange.rootPositions?_eq]
  refine mapM_member? fun position listed => ?_
  simpa using List.mem_of_mem_filter listed

/-! ## Cycles -/

def search? (relations : Relations) :
    Nat → List Nat × List Nat → Option (List Nat)
  | 0, (found, _) => some found
  | _ + 1, (found, []) => some found
  | steps + 1, (found, position :: pending) => do
    let targets ← relations.dependencies[position]?
    search? relations steps (targets.foldl discover (found, pending))

def reachable? (relations : Relations) (position : Nat) :
    Option (List Nat) :=
  relations.search? (relations.size + 1) ([], [position])

def classAt?
    (relations : Relations) (reached : List (List Nat)) (position : Nat) :
    Option (List Nat) :=
  (List.range relations.size) |> Strict.keep fun other => do
    let here ← reached[position]?
    let there ← reached[other]?
    some (other = position ∨ (other ∈ here ∧ position ∈ there))

/-- The cycle whose first member is at a position, if there is one. -/
def cycleFrom?
    (relations : Relations) (reached : List (List Nat)) (position : Nat) :
    Option (Option Cycle) := do
  let positions ← relations.classAt? reached position
  if positions.head? = some position ∧ 2 ≤ positions.length then
    let ids ← relations.idsAt? positions
    some (some ⟨ids⟩)
  else some none

def cycles? (relations : Relations) : Option (List Cycle) := do
  let reached ← (List.range relations.size).mapM relations.reachable?
  let found ←
    (List.range relations.size).mapM (relations.cycleFrom? reached)
  some (found.filterMap id)

/-- What waits after a step waited before or is a dependency. -/
theorem mem_foldl_discover
    {targets found pending : List Nat} {position : Nat}
    (waiting :
      position ∈ (targets.foldl discover (found, pending)).2) :
    position ∈ pending ∨ position ∈ targets := by
  induction targets generalizing found pending with
  | nil => exact Or.inl waiting
  | cons target rest induction =>
      rw [List.foldl_cons, discover] at waiting
      split at waiting
      · exact (induction waiting).imp_right (List.mem_cons_of_mem target)
      · rcases induction waiting with before | later
        · rcases List.mem_append.mp before with old | new
          · exact Or.inl old
          · exact Or.inr (List.mem_singleton.mp new ▸ List.mem_cons_self)
        · exact Or.inr (List.mem_cons_of_mem target later)

theorem InRange.search?_eq
    (inRange : relations.InRange) (steps : Nat) {found pending : List Nat}
    (inside : ∀ position ∈ pending, position < relations.size) :
    relations.search? steps (found, pending) =
      some (relations.search steps (found, pending)) := by
  induction steps generalizing found pending with
  | zero => rfl
  | succ steps induction =>
      cases pending with
      | nil => rfl
      | cons position pending =>
          rw [List.forall_mem_cons] at inside
          rw [search?, search, inRange.dependencies_getElem? inside.1]
          refine induction fun other waiting => ?_
          rcases mem_foldl_discover waiting with old | listed
          · exact inside.2 other old
          · exact inRange.dependenciesAt_lt inside.1 listed

theorem classAt?_eq
    {position : Nat} (inside : position < relations.size) :
    relations.classAt? ((List.range relations.size).map relations.reachable)
        position =
      some
        (relations.classAt
          ((List.range relations.size).map relations.reachable) position) := by
  have reached :
      ∀ other < relations.size,
        ((List.range relations.size).map relations.reachable)[other]? =
          some (relations.reachable other) := by
    intro other within
    rw [List.getElem?_map, List.getElem?_range within]
    rfl
  refine Strict.keep_eq_filter fun other listed => ?_
  rw [reached position inside, reached other (List.mem_range.mp listed)]
  rfl

theorem cycleFrom?_eq
    {position : Nat} (inside : position < relations.size) :
    relations.cycleFrom?
        ((List.range relations.size).map relations.reachable) position =
      some
        (relations.cycleAt?
          ((List.range relations.size).map relations.reachable)
          position) := by
  rw [cycleFrom?, classAt?_eq inside, cycleAt?]
  dsimp only [Option.bind_eq_bind, Option.bind_some]
  split
  · rw [idsAt?_eq fun other listed => ?_]
    · rfl
    · exact List.mem_range.mp (List.mem_of_mem_filter listed)
  · rfl

/-- The search for cycles looks nothing up that is not there. -/
theorem InRange.cycles?_eq (inRange : relations.InRange) :
    relations.cycles? = some relations.cycles := by
  have reached :
      (List.range relations.size).mapM relations.reachable? =
        some ((List.range relations.size).map relations.reachable) := by
    refine Strict.mapM_eq_map fun position listed => ?_
    refine inRange.search?_eq (relations.size + 1) fun other waiting => ?_
    rw [List.mem_singleton.mp waiting]
    exact List.mem_range.mp listed
  rw [cycles?, reached, Option.bind_eq_bind, Option.bind_some,
    Strict.mapM_eq_map fun position listed =>
      cycleFrom?_eq (List.mem_range.mp listed)]
  refine congrArg some ?_
  rw [List.filterMap_map]
  rfl

end Relations

/-! ## Cycles by a search for components -/

namespace Digraph

/-- A node of a digraph. -/
def node? (graph : Digraph) (node : Nat) : Option Nat :=
  if node < graph.size then some node else none

/-- Add an edge between nodes of a digraph. -/
def connect? (graph : Digraph) (edge : Nat × Nat) : Option Digraph := do
  let source ← graph.node? edge.1
  let target ← graph.node? edge.2
  some { graph with edges := graph.edges ++ [(source, target)] }

/-- The components of a digraph that a search lists are made of its nodes. -/
def ListsNodes
    (search : Digraph → List (List Nat)) (graph : Digraph) : Prop :=
  ∀ component ∈ search graph, ∀ node ∈ component, node < graph.size

theorem node?_eq
    {graph : Digraph} {node : Nat} (inside : node < graph.size) :
    graph.node? node = some node :=
  if_pos inside

theorem mapM_node?
    {graph : Digraph} {nodes : List Nat}
    (inside : ∀ node ∈ nodes, node < graph.size) :
    nodes.mapM graph.node? = some nodes := by
  have found :=
    @Strict.mapM_eq_map _ _ graph.node? id nodes
      fun node member => node?_eq (inside node member)
  rwa [List.map_id] at found

theorem foldlM_connect?
    {graph : Digraph} {edges : List (Nat × Nat)}
    (inside :
      ∀ edge ∈ edges, edge.1 < graph.size ∧ edge.2 < graph.size) :
    edges.foldlM connect? graph =
      some { graph with edges := graph.edges ++ edges } := by
  induction edges generalizing graph with
  | nil => simp
  | cons edge rest induction =>
      rw [List.forall_mem_cons] at inside
      rw [List.foldlM_cons, connect?, node?_eq inside.1.1,
        node?_eq inside.1.2]
      dsimp only [Option.bind_eq_bind, Option.bind_some]
      rw [@induction ⟨graph.size, graph.edges ++ [edge]⟩ inside.2,
        List.append_assoc]
      rfl

/-- The nodes of a component in ascending order. -/
def group? (graph : Digraph) (component : List Nat) : Option (List Nat) := do
  let nodes ← component.mapM graph.node?
  some (Sorting.sortBy Relations.ascends nodes)

theorem group?_eq
    {graph : Digraph} {component : List Nat}
    (inside : ∀ node ∈ component, node < graph.size) :
    graph.group? component =
      some (Sorting.sortBy Relations.ascends component) := by
  rw [group?, mapM_node? inside]
  rfl

/-- A component of several nodes has a first one when they are in order. -/
theorem head?_sortBy_ascends
    {component : List Nat} (several : 1 < component.length) :
    (Sorting.sortBy Relations.ascends component).head? =
      some ((Sorting.sortBy Relations.ascends component).headD 0) := by
  have ordered := Sorting.sortBy_perm Relations.ascends component
  cases here : Sorting.sortBy Relations.ascends component with
  | nil =>
      rw [here, List.nil_perm] at ordered
      simp [ordered] at several
  | cons first rest => rfl

end Digraph

namespace Relations

variable {relations : Relations}

def edgesFrom? (relations : Relations) (position : Nat) :
    Option (List (Nat × Nat)) := do
  let targets ← relations.dependencies[position]?
  some (targets.map (position, ·))

def digraph? (relations : Relations) : Option Digraph := do
  let edges ← (List.range relations.size).mapM relations.edgesFrom?
  edges.flatten.foldlM Digraph.connect? ⟨relations.size, []⟩

def cyclesBy?
    (search : Digraph → List (List Nat)) (relations : Relations) :
    Option (List Cycle) := do
  let digraph ← relations.digraph?
  let groups ←
    ((search digraph).filter fun component => 1 < component.length).mapM
      digraph.group?
  let ordered ← Strict.sortByKey List.head? groups
  ordered.mapM fun positions => do
    let ids ← relations.idsAt? positions
    some ⟨ids⟩

theorem InRange.digraph?_eq (inRange : relations.InRange) :
    relations.digraph? = some relations.digraph := by
  have edges :
      (List.range relations.size).mapM relations.edgesFrom? =
        some
          ((List.range relations.size).map fun position =>
            (relations.dependenciesAt position).map (position, ·)) := by
    refine Strict.mapM_eq_map fun position listed => ?_
    rw [edgesFrom?,
      inRange.dependencies_getElem? (List.mem_range.mp listed)]
    rfl
  rw [digraph?, edges, Option.bind_eq_bind, Option.bind_some,
    Digraph.foldlM_connect?]
  · rfl
  · intro edge member
    rw [← List.flatMap_def, List.mem_flatMap] at member
    rcases member with ⟨position, within, listed⟩
    rcases List.mem_map.mp listed with ⟨target, targetIn, rfl⟩
    have inside := List.mem_range.mp within
    exact ⟨inside, inRange.dependenciesAt_lt inside targetIn⟩

/-- A search that lists nodes leads to no look-up that fails. -/
theorem InRange.cyclesBy?_eq
    (inRange : relations.InRange) {search : Digraph → List (List Nat)}
    (nodes : Digraph.ListsNodes search relations.digraph) :
    relations.cyclesBy? search = some (relations.cyclesBy search) := by
  have grouped :
      ((search relations.digraph).filter
            fun component => 1 < component.length).mapM
          relations.digraph.group? =
        some
          (((search relations.digraph).filter
            fun component => 1 < component.length).map
              (Sorting.sortBy ascends)) := by
    refine Strict.mapM_eq_map fun component member => ?_
    exact Digraph.group?_eq (nodes component (List.mem_of_mem_filter member))
  have groups :
      ∀ group ∈ ((search relations.digraph).filter
            fun component => 1 < component.length).map
              (Sorting.sortBy ascends),
        (∀ position ∈ group, position < relations.size) ∧
          group.head? = some (group.headD 0) := by
    intro group member
    rcases List.mem_map.mp member with ⟨component, found, rfl⟩
    obtain ⟨listed, several⟩ := List.mem_filter.mp found
    refine ⟨fun position positionIn => ?_, ?_⟩
    · exact nodes component listed position
        ((Sorting.mem_sortBy _ _).mp positionIn)
    · exact Digraph.head?_sortBy_ascends (of_decide_eq_true several)
  have ordered :=
    Strict.sortByKey_eq_sortBy fun group member => (groups group member).2
  rw [cyclesBy?, inRange.digraph?_eq, Option.bind_eq_bind, Option.bind_some,
    grouped, Option.bind_eq_bind, Option.bind_some, ordered,
    Option.bind_eq_bind, Option.bind_some]
  refine Strict.mapM_eq_map fun positions member => ?_
  rw [idsAt?_eq (groups positions ((Sorting.mem_sortBy _ _).mp member)).1]
  rfl

end Relations

end FeatureAtlas
