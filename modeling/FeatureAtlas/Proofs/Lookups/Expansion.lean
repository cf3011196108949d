import FeatureAtlas.Proofs.Graph.Mentions
import FeatureAtlas.Proofs.Lookups.Queries

/-!
# Strict look-ups: expansion

The growth of an arena in strict form.  Members are looked up when they are
met, lists when a node is expanded, and a node again when its neighbours are
filled in.  The queue holds positions of members and places of nodes, and no
step takes a node away; so a growth that begins in a finished arena looks
nothing up that is not there, however many growths went before.
-/

namespace FeatureAtlas

/-- Fill in the neighbours of a node that is looked up. -/
def Arena.connect?
    (arena : Arena) (place : Nat) (dependsOn dependants : List Nat) :
    Option Arena := do
  let node ← arena.node? place
  some
    { arena with
      nodes :=
        arena.nodes.set place
          { node with dependsOn := dependsOn, dependants := dependants } }

theorem Arena.connect?_eq
    {arena : Arena} {place : Nat} (inside : place < arena.size)
    (dependsOn dependants : List Nat) :
    arena.connect? place dependsOn dependants =
      some (arena.connect place dependsOn dependants) := by
  rw [connect?, connect, node?, List.modify_eq_set_getElem?,
    List.getElem?_eq_getElem inside]
  rfl

namespace Growth

variable {relations : Relations}

/-- Meet a member that is looked up. -/
def meet?
    (relations : Relations) (growth : Growth) (position : Nat) :
    Option (Growth × Nat) := do
  let feature ← relations.member? position
  match growth.arena.find? feature.id with
  | some place => some (growth, place)
  | none =>
    some
      (⟨growth.arena.add feature.id,
          growth.pending ++ [(position, growth.arena.size)]⟩,
        growth.arena.size)

def meetAll? (relations : Relations) :
    Growth → List Nat → Option (Growth × List Nat)
  | growth, [] => some (growth, [])
  | growth, position :: rest => do
    let (growth, place) ← growth.meet? relations position
    let (growth, places) ← meetAll? relations growth rest
    some (growth, place :: places)

/-- Expand a node; its lists and the node itself are looked up. -/
def expand?
    (relations : Relations) (growth : Growth) (position place : Nat) :
    Option Growth := do
  let targets ← relations.dependencies[position]?
  let (growth, dependsOn) ← growth.meetAll? relations targets
  let sources ← relations.dependents[position]?
  let (growth, dependants) ← growth.meetAll? relations sources
  let arena ← growth.arena.connect? place dependsOn dependants
  some { growth with arena := arena }

def run? (relations : Relations) : Nat → Growth → Option Growth
  | 0, growth => some growth
  | steps + 1, growth =>
    match growth.pending with
    | [] => some growth
    | (position, place) :: pending => do
      let growth ← expand? relations ⟨growth.arena, pending⟩ position place
      run? relations steps growth

theorem meet?_eq
    {position : Nat} (inside : position < relations.size)
    (growth : Growth) :
    growth.meet? relations position =
      some (growth.meet relations position) := by
  obtain ⟨feature, found⟩ := Relations.exists_member? inside
  rw [meet?, meet, found, Relations.idAt_of_member? found,
    Option.bind_eq_bind, Option.bind_some]
  cases growth.arena.find? feature.id <;> rfl

theorem meetAll?_eq
    {positions : List Nat}
    (inside : ∀ position ∈ positions, position < relations.size)
    (growth : Growth) :
    growth.meetAll? relations positions =
      some (growth.meetAll relations positions) := by
  induction positions generalizing growth with
  | nil => rfl
  | cons position rest induction =>
      rw [List.forall_mem_cons] at inside
      rw [meetAll?, meet?_eq inside.1, Option.bind_eq_bind,
        Option.bind_some]
      dsimp only
      rw [induction inside.2]
      rfl

/-- A node that is there is expanded without a look-up that fails. -/
theorem expand?_eq
    (inRange : relations.InRange) {growth : Growth} {position place : Nat}
    (inside : position < relations.size)
    (within : place < growth.arena.size) :
    growth.expand? relations position place =
      some (growth.expand relations position place) := by
  have forward :=
    extends_meetAll relations growth (relations.dependenciesAt position)
  have backward :=
    extends_meetAll relations
      (growth.meetAll relations (relations.dependenciesAt position)).1
      (relations.dependentsAt position)
  -- Meeting only adds nodes, so the node is still there in the end.
  have still :=
    Nat.lt_of_lt_of_le within (forward.size_le.trans backward.size_le)
  rw [expand?, inRange.dependencies_getElem? inside, Option.bind_eq_bind,
    Option.bind_some,
    meetAll?_eq fun _ listed => inRange.dependenciesAt_lt inside listed,
    Option.bind_eq_bind, Option.bind_some]
  dsimp only
  rw [inRange.dependents_getElem? inside, Option.bind_eq_bind,
    Option.bind_some,
    meetAll?_eq fun _ listed => inRange.dependentsAt_lt inside listed,
    Option.bind_some, Arena.connect?_eq still]
  rfl

/-- While the queue is worked off, nothing is looked up that is not there. -/
theorem Steady.run?_eq
    {family : List Relations} {growth : Growth}
    (steady : Steady family relations [] growth)
    (inRange : relations.InRange) (lawful : relations.Lawful)
    (member : relations ∈ family) (steps : Nat) :
    growth.run? relations steps = some (growth.run relations steps) := by
  induction steps generalizing growth with
  | zero => rfl
  | succ steps induction =>
      rcases growth with ⟨arena, pending⟩
      cases pending with
      | nil => rfl
      | cons entry pending =>
          rcases entry with ⟨position, place⟩
          obtain ⟨inside, standing⟩ :=
            steady.standing (position, place) (by simp)
          have within := Arena.lt_size_of_features standing
          rw [run?, Growth.run]
          dsimp only
          rw [@expand?_eq relations inRange ⟨arena, pending⟩ _ _ inside
            within]
          exact induction (steady.expand lawful member)

/-! ## The table of places -/

theorem indexed_expand
    {arena : Arena} (indexed : arena.Indexed) (pending : List (Nat × Nat))
    (position place : Nat) :
    (Growth.expand relations ⟨arena, pending⟩ position place).arena.Indexed := by
  have forward :=
    @appends_meetAll relations ⟨arena, pending⟩ indexed
      (relations.dependenciesAt position)
  have backward :=
    @appends_meetAll relations _ forward.indexed
      (relations.dependentsAt position)
  exact backward.indexed.connect _ _ _

theorem indexed_run
    {growth : Growth} (indexed : growth.arena.Indexed) (steps : Nat) :
    (growth.run relations steps).arena.Indexed := by
  induction steps generalizing growth with
  | zero => exact indexed
  | succ steps induction =>
      rcases growth with ⟨arena, pending⟩
      cases pending with
      | nil => exact indexed
      | cons entry pending => exact induction (indexed_expand indexed _ _ _)

end Growth

/--
The table of an arena finds each feature at the place of its node, before and
after each access of a growth.
-/
structure Relations.KeepsIndexed (relations : Relations) : Prop where
  meet :
    ∀ growth : Growth, growth.arena.Indexed →
      ∀ position, (growth.meet relations position).1.arena.Indexed
  connect :
    ∀ arena : Arena, arena.Indexed →
      ∀ place dependsOn dependants,
        (arena.connect place dependsOn dependants).Indexed
  run :
    ∀ growth : Growth, growth.arena.Indexed →
      ∀ steps, (growth.run relations steps).arena.Indexed

theorem Relations.keepsIndexed (relations : Relations) :
    relations.KeepsIndexed where
  meet := fun _ indexed position =>
    (Growth.appends_meet indexed position).indexed
  connect := fun _ indexed => indexed.connect
  run := fun _ indexed => Growth.indexed_run indexed

/-! ## Graphs and forests -/

namespace Relations

def growInto? (relations : Relations) (arena : Arena) (position : Nat) :
    Option (Arena × Nat) := do
  let (growth, place) ← Growth.meet? relations ⟨arena, []⟩ position
  let growth ← growth.run? relations relations.size
  some (growth.arena, place)

def graph? (relations : Relations) (id : FeatureId) :
    Option (Except Error FeatureGraph) :=
  match relations.position id with
  | .error problem => some (.error problem)
  | .ok position => do
    let (arena, root) ← relations.growInto? .empty position
    some (.ok ⟨arena, root⟩)

/-- Growing into a finished arena looks nothing up that is not there. -/
theorem InRange.growInto?_eq
    {relations : Relations} (inRange : relations.InRange)
    (lawful : relations.Lawful) {family : List Relations} {arena : Arena}
    (finished : arena.Finished family) (member : relations ∈ family)
    {position : Nat} (inside : position < relations.size) :
    relations.growInto? arena position =
      some (relations.growInto arena position) := by
  have met := (finished.idle relations).meet inside
  rw [growInto?, Growth.meet?_eq inside, Option.bind_eq_bind,
    Option.bind_some]
  dsimp only
  rw [met.run?_eq inRange lawful member]
  rfl

theorem InRange.graph?_eq
    {relations : Relations} (inRange : relations.InRange)
    (lawful : relations.Lawful) (id : FeatureId) :
    relations.graph? id = some (relations.graph id) := by
  rw [graph?, graph]
  cases placed : relations.position id with
  | error problem => rfl
  | ok position =>
      dsimp only
      rw [inRange.growInto?_eq lawful (finished_empty [relations])
        (List.mem_singleton_self relations) (inRange.lt_of_position placed)]
      rfl

end Relations

/-- The place of a root in the catalog. -/
def ScopeRoot.place? (root : ScopeRoot) : Option Nat :=
  root.relations.membership.places[root.position]?

namespace Forest

def grow? (forest : Forest) (root : ScopeRoot) : Option Forest := do
  let (arena, place) ← root.relations.growInto? forest.arena root.position
  some ⟨arena, forest.roots ++ [place]⟩

def scopeRoots? (relations : Relations) : Option (List ScopeRoot) := do
  let positions ← relations.rootPositions?
  some (positions.map (⟨relations, ·⟩))

def rootsOf? (scopes : List Relations) : Option (List ScopeRoot) := do
  let roots ← scopes.mapM scopeRoots?
  Strict.sortByKey ScopeRoot.place? roots.flatten

def ofScopes? (scopes : List Relations) : Option Forest := do
  let roots ← rootsOf? scopes
  roots.foldlM grow? empty

section Scopes

variable {scopes : List Relations}
variable (inRange : ∀ relations ∈ scopes, relations.InRange)

include inRange

theorem rootsOf?_eq : rootsOf? scopes = some (rootsOf scopes) := by
  have each :
      scopes.mapM scopeRoots? =
        some
          (scopes.map fun relations =>
            relations.rootPositions.map (⟨relations, ·⟩)) := by
    refine Strict.mapM_eq_map fun relations member => ?_
    rw [scopeRoots?, (inRange relations member).rootPositions?_eq]
    rfl
  rw [rootsOf?, each, Option.bind_eq_bind, Option.bind_some,
    ← List.flatMap_def]
  refine Strict.sortByKey_eq_sortBy fun root member => ?_
  rcases List.mem_flatMap.mp member with ⟨relations, relationsIn, listed⟩
  rcases List.mem_map.mp listed with ⟨position, positionIn, rfl⟩
  have inside := Relations.lt_size_of_mem_rootPositions positionIn
  rw [← (inRange relations relationsIn).length_places] at inside
  rw [ScopeRoot.place?, ScopeRoot.place, Relations.placeAt,
    List.getElem?_eq_getElem inside]
  rfl

/-- Roots that are grown one after the other meet finished arenas. -/
theorem foldlM_grow?
    (lawful : ∀ relations ∈ scopes, relations.Lawful)
    {forest : Forest} (sound : Sound scopes forest) (rest : List ScopeRoot)
    (among :
      ∀ root ∈ rest,
        root.relations ∈ scopes ∧ root.position < root.relations.size) :
    rest.foldlM grow? forest = some (rest.foldl grow forest) := by
  induction rest generalizing forest with
  | nil => rfl
  | cons root rest induction =>
      rw [List.forall_mem_cons] at among
      obtain ⟨⟨member, inside⟩, others⟩ := among
      have here := lawful root.relations member
      have grown : grow? forest root = some (forest.grow root) := by
        rw [grow?,
          (inRange root.relations member).growInto?_eq here sound.finished
            member inside]
        rfl
      rw [List.foldlM_cons, grown]
      exact induction (sound.grow here member inside) others

/-- The forest of several scopes grows without a look-up that fails. -/
theorem ofScopes?_eq
    (lawful : ∀ relations ∈ scopes, relations.Lawful) :
    ofScopes? scopes = some (ofScopes scopes) := by
  rw [ofScopes?, rootsOf?_eq inRange]
  exact
    foldlM_grow? inRange lawful (sound_empty scopes) _
      (among_rootsOf scopes)

end Scopes

/-- Whatever roots are grown one after the other, the table keeps in step with the nodes. -/
theorem indexed_foldl
    {forest : Forest} (indexed : forest.arena.Indexed)
    (rest : List ScopeRoot) :
    (rest.foldl grow forest).arena.Indexed := by
  induction rest generalizing forest with
  | nil => exact indexed
  | cons root rest induction =>
      have keeps := root.relations.keepsIndexed
      exact
        induction
          (keeps.run _ (keeps.meet ⟨forest.arena, []⟩ indexed root.position)
            root.relations.size)

end Forest

end FeatureAtlas
