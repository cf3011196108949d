import FeatureAtlas.Graph.Cycles
import FeatureAtlas.Proofs.Graph.Adjacency
import FeatureAtlas.Proofs.Sorting

/-!
# Strict look-ups: relations

The definitions that run take a default where an index is out of range.  Here
each of them stands once more in a strict form, which has no result as soon as
one index is out of range.  Whatever is built from a catalog keeps its
positions below the number of its members; so the strict forms have results,
and they are the same: no default is ever taken.
-/

namespace FeatureAtlas

/-! ## Strict passes over a list -/

namespace Strict

variable {α β : Type}

/-- The elements that pass a test which may fail to answer. -/
def keep (test? : α → Option Bool) : List α → Option (List α)
  | [] => some []
  | head :: rest => do
    let passes ← test? head
    let others ← keep test? rest
    some (if passes then head :: others else others)

/-- Sort by keys that are looked up first. -/
def sortByKey (key? : α → Option Nat) (list : List α) : Option (List α) := do
  let keyed ← list.mapM fun element => (key? element).map (·, element)
  some ((Sorting.sortBy (fun left right => left.1 ≤ right.1) keyed).map (·.2))

theorem mapM_eq_map
    {look? : α → Option β} {look : α → β} {list : List α}
    (found : ∀ element ∈ list, look? element = some (look element)) :
    list.mapM look? = some (list.map look) := by
  induction list with
  | nil => rfl
  | cons head rest induction =>
      have others := induction fun element member =>
        found element (List.mem_cons_of_mem head member)
      rw [List.mapM_cons, found head List.mem_cons_self, others]
      rfl

theorem mapM_eq_filterMap
    {look? : α → Option β} {list : List α}
    (found : ∀ element ∈ list, ∃ value, look? element = some value) :
    list.mapM look? = some (list.filterMap look?) := by
  induction list with
  | nil => rfl
  | cons head rest induction =>
      have others := induction fun element member =>
        found element (List.mem_cons_of_mem head member)
      obtain ⟨value, here⟩ := found head List.mem_cons_self
      rw [List.mapM_cons, here, others, List.filterMap_cons_some here]
      rfl

theorem keep_eq_filter
    {test? : α → Option Bool} {test : α → Bool} {list : List α}
    (answered : ∀ element ∈ list, test? element = some (test element)) :
    keep test? list = some (list.filter test) := by
  induction list with
  | nil => rfl
  | cons head rest induction =>
      have others := induction fun element member =>
        answered element (List.mem_cons_of_mem head member)
      rw [keep, answered head List.mem_cons_self, others, List.filter_cons]
      rfl

theorem map_insertBy
    (image : α → β) (le : β → β → Bool) (element : α) (list : List α) :
    (Sorting.insertBy (fun left right => le (image left) (image right))
        element list).map image =
      Sorting.insertBy le (image element) (list.map image) := by
  induction list with
  | nil => rfl
  | cons head rest induction =>
      rw [Sorting.insertBy, List.map_cons, Sorting.insertBy]
      split
      · rfl
      · rw [List.map_cons, induction]

/-- Images are sorted as what they are images of. -/
theorem map_sortBy
    (image : α → β) (le : β → β → Bool) (list : List α) :
    (Sorting.sortBy (fun left right => le (image left) (image right))
        list).map image =
      Sorting.sortBy le (list.map image) := by
  induction list with
  | nil => rfl
  | cons head rest induction =>
      rw [Sorting.sortBy, map_insertBy, induction]
      rfl

/-- If all keys are found, the list is sorted by them. -/
theorem sortByKey_eq_sortBy
    {key? : α → Option Nat} {key : α → Nat} {list : List α}
    (found : ∀ element ∈ list, key? element = some (key element)) :
    sortByKey key? list =
      some
        (Sorting.sortBy (fun left right => key left ≤ key right) list) := by
  have keyed :
      (list.mapM fun element => (key? element).map (·, element)) =
        some (list.map fun element => (key element, element)) := by
    refine mapM_eq_map fun element member => ?_
    rw [found element member]
    rfl
  have sorted :=
    map_sortBy (fun element : α => (key element, element))
      (fun left right => left.1 ≤ right.1) list
  rw [sortByKey, keyed]
  refine congrArg some ?_
  rw [← sorted, List.map_map]
  exact List.map_id _

end Strict

/-! ## Owners -/

namespace Ownership

/-- Take one more declaration into account; an owner is named by the feature at its position. -/
def declare?
    (features : List Feature) (policy : ConflictPolicy)
    (ownership : Ownership) (declaration : Declaration) :
    Option (Except Error Ownership) :=
  let signature := declaration.signature
  let declarer := declaration.declarer
  match ownership.owners.get? signature with
  | none =>
    some
      (.ok
        { ownership with
          owners := ownership.owners.insert signature declarer })
  | some owner =>
    if owner.position = declarer.position ∨
        ownership.reported.contains (signature, declarer.position) then
      some (.ok ownership)
    else do
      let feature ← features[owner.position]?
      match policy with
      | .reject =>
        some (.error (.ambiguousOwner signature feature.id declarer.id))
      | .firstWins =>
        some
          (.ok
            { ownership with
              conflicts :=
                ownership.conflicts ++
                  [⟨signature, feature.id, declarer.id⟩]
              reported :=
                (signature, declarer.position) :: ownership.reported })

def declareAll? (features : List Feature) (policy : ConflictPolicy) :
    Ownership → List Declaration → Option (Except Error Ownership)
  | ownership, [] => some (.ok ownership)
  | ownership, declaration :: rest => do
    match ← declare? features policy ownership declaration with
    | .error problem => some (.error problem)
    | .ok next => declareAll? features policy next rest

def build? (policy : ConflictPolicy) (features : List Feature) :
    Option (Except Error Ownership) :=
  declareAll? features policy empty (declarations features)

/-- Each owner is the feature at its position. -/
def Standing (features : List Feature) (ownership : Ownership) : Prop :=
  ∀ signature owner,
    ownership.owners.get? signature = some owner →
      features[owner.position]?.map (·.id) = some owner.id

theorem standing_empty (features : List Feature) :
    Standing features empty := by
  intro signature owner owned
  simp [empty] at owned

/-- A declaration of one of the features keeps the owners where they stand. -/
theorem Standing.declare
    {features : List Feature} {policy : ConflictPolicy}
    {ownership next : Ownership} {declaration : Declaration}
    (standing : Standing features ownership)
    (listed : declaration ∈ declarations features)
    (declared : declare policy ownership declaration = .ok next) :
    Standing features next := by
  intro signature owner owned
  rw [owners_declare declared, Option.or_eq_some_iff] at owned
  rcases owned with before | ⟨-, here⟩
  · exact standing signature owner before
  · obtain ⟨feature, located, same, -⟩ :=
      exists_of_mem_declarations listed
    split at here
    · obtain rfl := Option.some.inj here
      rw [located, ← same]
      rfl
    · cases here

theorem Standing.declare?_eq
    {features : List Feature} {ownership : Ownership}
    (standing : Standing features ownership) (policy : ConflictPolicy)
    (declaration : Declaration) :
    declare? features policy ownership declaration =
      some (Ownership.declare policy ownership declaration) := by
  rw [declare?, Ownership.declare]
  cases held : ownership.owners.get? declaration.signature with
  | none => rfl
  | some owner =>
      obtain ⟨feature, located, same⟩ :=
        Option.map_eq_some_iff.mp (standing _ owner held)
      simp only [List.contains_iff_mem]
      split
      · rfl
      · rw [located, ← same]
        cases policy <;> rfl

theorem Standing.declareAll?_eq
    {features : List Feature} {policy : ConflictPolicy}
    (rest : List Declaration) {ownership : Ownership}
    (standing : Standing features ownership)
    (listed : ∀ declaration ∈ rest, declaration ∈ declarations features) :
    declareAll? features policy ownership rest =
      some (rest.foldlM (Ownership.declare policy) ownership) := by
  induction rest generalizing ownership with
  | nil => rfl
  | cons declaration rest induction =>
      rw [List.forall_mem_cons] at listed
      rw [declareAll?, standing.declare?_eq, List.foldlM_cons]
      cases declared : Ownership.declare policy ownership declaration with
      | error problem => rfl
      | ok next =>
          exact induction (standing.declare listed.1 declared) listed.2

/-- Every owner is found, so the conflicts and the refusal name the right features. -/
theorem build?_eq (policy : ConflictPolicy) (features : List Feature) :
    build? policy features = some (build policy features) :=
  (standing_empty features).declareAll?_eq (declarations features)
    fun _ listed => listed

/-- In the end too each owner is the feature at its position. -/
theorem standing_build
    {policy : ConflictPolicy} {features : List Feature}
    {ownership : Ownership}
    (built : build policy features = .ok ownership) :
    Standing features ownership := by
  intro signature owner owned
  rw [owners_build built, Option.map_eq_some_iff] at owned
  rcases owned with ⟨declaration, found, rfl⟩
  obtain ⟨feature, located, same, -⟩ :=
    exists_of_mem_declarations (List.mem_of_find?_eq_some found)
  rw [located, ← same]
  rfl

end Ownership

/-! ## Building relations -/

namespace Relations

/-- Note that one member depends on another, which is looked up. -/
def noteDependent?
    (dependent : Nat) (dependents : List (List Nat)) (target : Nat) :
    Option (List (List Nat)) := do
  let sources ← dependents[target]?
  some (dependents.set target (sources ++ [dependent]))

def noteDependents?
    (dependents : List (List Nat)) (entry : List Nat × Nat) :
    Option (List (List Nat)) :=
  entry.1.foldlM (noteDependent? entry.2) dependents

def invert? (dependencies : List (List Nat)) : Option (List (List Nat)) :=
  dependencies.zipIdx.foldlM noteDependents?
    (dependencies.map fun _ => [])

def dependencies?
    (ownership : Ownership) (ledger : Ledger) (features : List Feature) :
    Option (List (List Nat)) :=
  (List.range features.length).mapM fun position => do
    let feature ← features[position]?
    some (resolve ownership ledger (feature, position))

def build?
    (policy : ConflictPolicy) (catalog : List Feature) (scope : Scope)
    (ledger : Ledger) : Option (Except Error Relations) := do
  let membership := Membership.ofCatalog scope catalog
  match ← Ownership.build? policy membership.members with
  | .error problem => some (.error problem)
  | .ok ownership =>
    let dependencies ← dependencies? ownership ledger membership.members
    let dependents ← invert? dependencies
    some
      (.ok
        { scope := scope
          membership := membership
          ownership := ownership
          dependencies := dependencies
          dependents := dependents })

theorem noteDependent?_eq
    {dependents : List (List Nat)} {target : Nat}
    (inside : target < dependents.length) (dependent : Nat) :
    noteDependent? dependent dependents target =
      some (noteDependent dependent dependents target) := by
  rw [noteDependent?, noteDependent, List.modify_eq_set_getElem?,
    List.getElem?_eq_getElem inside]
  rfl

theorem length_noteDependent
    (dependent : Nat) (dependents : List (List Nat)) (target : Nat) :
    (noteDependent dependent dependents target).length =
      dependents.length :=
  List.length_modify _ _ _

theorem noteDependents?_eq
    {dependents : List (List Nat)} {entry : List Nat × Nat}
    (inside : ∀ target ∈ entry.1, target < dependents.length) :
    noteDependents? dependents entry =
        some (entry.1.foldl (noteDependent entry.2) dependents) ∧
      (entry.1.foldl (noteDependent entry.2) dependents).length =
        dependents.length := by
  rcases entry with ⟨targets, dependent⟩
  dsimp only [noteDependents?] at inside ⊢
  induction targets generalizing dependents with
  | nil => exact ⟨rfl, rfl⟩
  | cons target rest induction =>
      rw [List.forall_mem_cons] at inside
      rw [List.foldlM_cons, noteDependent?_eq inside.1, List.foldl_cons]
      have same := length_noteDependent dependent dependents target
      rw [← same] at inside
      obtain ⟨noted, length⟩ := induction inside.2
      exact ⟨noted, length.trans same⟩

theorem foldlM_noteDependents?
    {entries : List (List Nat × Nat)} {dependents : List (List Nat)}
    (inside :
      ∀ entry ∈ entries, ∀ target ∈ entry.1, target < dependents.length) :
    entries.foldlM noteDependents? dependents =
        some
          (entries.foldl
            (fun dependents (targets, dependent) =>
              targets.foldl (noteDependent dependent) dependents)
            dependents) ∧
      (entries.foldl
          (fun dependents (targets, dependent) =>
            targets.foldl (noteDependent dependent) dependents)
          dependents).length =
        dependents.length := by
  induction entries generalizing dependents with
  | nil => exact ⟨rfl, rfl⟩
  | cons entry rest induction =>
      rw [List.forall_mem_cons] at inside
      obtain ⟨noted, same⟩ := noteDependents?_eq inside.1
      rw [List.foldlM_cons, noted, List.foldl_cons]
      rw [← same] at inside
      obtain ⟨others, length⟩ := induction inside.2
      exact ⟨others, length.trans same⟩

/-- Lists that stay within the number of lists are inverted. -/
theorem invert?_eq
    {dependencies : List (List Nat)}
    (inside :
      ∀ targets ∈ dependencies, ∀ target ∈ targets,
        target < dependencies.length) :
    invert? dependencies = some (invert dependencies) ∧
      (invert dependencies).length = dependencies.length := by
  have within :
      ∀ entry ∈ dependencies.zipIdx, ∀ target ∈ entry.1,
        target < (dependencies.map fun _ => ([] : List Nat)).length := by
    intro entry member target listed
    rw [List.length_map]
    exact inside entry.1 (List.fst_mem_of_mem_zipIdx member) target listed
  obtain ⟨noted, length⟩ := foldlM_noteDependents? within
  exact ⟨noted, length.trans (List.length_map _)⟩

theorem dependencies?_eq
    (ownership : Ownership) (ledger : Ledger) (features : List Feature) :
    dependencies? ownership ledger features =
      some (features.zipIdx.map (resolve ownership ledger)) := by
  have indices :
      List.range features.length = features.zipIdx.map (·.2) := by
    rw [List.zipIdx_map_snd, List.range_eq_range']
  rw [dependencies?, indices, List.mapM_map]
  refine Strict.mapM_eq_map fun entry member => ?_
  have located := List.mem_zipIdx_iff_getElem?.mp member
  dsimp only [Function.comp_apply]
  rw [located]
  rfl

/-- What is resolved are positions of features, if the owners are. -/
theorem lt_length_of_mem_resolve
    {features : List Feature} {ownership : Ownership} {policy : ConflictPolicy}
    (owned : Ownership.build policy features = .ok ownership)
    (ledger : Ledger) :
    ∀ targets ∈ features.zipIdx.map (resolve ownership ledger),
      ∀ target ∈ targets,
        target < (features.zipIdx.map (resolve ownership ledger)).length := by
  intro targets member target listed
  rcases List.mem_map.mp member with ⟨entry, -, rfl⟩
  obtain ⟨-, signature, found⟩ := mem_resolve listed
  rw [List.length_map, List.length_zipIdx]
  exact Ownership.position?_lt owned found

/-- No look-up fails while relations are built, whatever they are built from. -/
theorem build?_eq
    (policy : ConflictPolicy) (catalog : List Feature) (scope : Scope)
    (ledger : Ledger) :
    build? policy catalog scope ledger =
      some (build policy catalog scope ledger) := by
  rw [build?, build, Ownership.build?_eq]
  cases owned :
      Ownership.build policy (Membership.ofCatalog scope catalog).members with
  | error problem => rfl
  | ok ownership =>
      have inverted := invert?_eq (lt_length_of_mem_resolve owned ledger)
      dsimp only [Option.bind_eq_bind, Option.bind_some]
      rw [dependencies?_eq, Option.bind_some, inverted.1]
      rfl

/--
The positions that relations store are below the number of members, and each
owner is the member at its position.
-/
structure InRange (relations : Relations) : Prop where
  owned : Ownership.Standing relations.members relations.ownership
  owner_lt :
    ∀ signature position,
      relations.ownership.position? signature = some position →
        position < relations.size
  position_lt :
    ∀ id position,
      relations.membership.positions.get? id = some position →
        position < relations.size
  length_places : relations.membership.places.length = relations.size
  length_dependencies : relations.dependencies.length = relations.size
  length_dependents : relations.dependents.length = relations.size
  target_lt :
    ∀ targets ∈ relations.dependencies, ∀ target ∈ targets,
      target < relations.size
  source_lt :
    ∀ sources ∈ relations.dependents, ∀ source ∈ sources,
      source < relations.size

/-- Relations that were built keep their positions in range. -/
theorem inRange_of_build
    {policy : ConflictPolicy} {catalog : List Feature} {scope : Scope}
    {ledger : Ledger} {relations : Relations}
    (built : build policy catalog scope ledger = .ok relations) :
    relations.InRange := by
  have parts := builtFrom_of_build built
  have lawful := lawful_of_build built
  obtain ⟨entries, enlisted⟩ := Membership.exists_enlisted scope catalog
  rw [← parts.membership_eq] at enlisted
  have sized : relations.dependencies.length = relations.size := by
    rw [parts.dependencies_eq, List.length_map, List.length_zipIdx]
    rfl
  have targets := lt_length_of_mem_resolve parts.owned ledger
  rw [← parts.dependencies_eq] at targets
  have inverted := (invert?_eq targets).2
  rw [← parts.dependents_eq] at inverted
  refine
    { owned := Ownership.standing_build parts.owned
      owner_lt := fun _ _ owned => Ownership.position?_lt parts.owned owned
      position_lt := ?position_lt
      length_places := ?length_places
      length_dependencies := sized
      length_dependents := inverted.trans sized
      target_lt := sized ▸ targets
      source_lt := ?source_lt }
  case position_lt =>
    intro id position found
    exact lt_size_of_map_id ((lawful.located id position).mp found)
  case length_places =>
    rw [enlisted.places_eq, size, members, enlisted.members_eq,
      List.length_map, List.length_map]
  case source_lt =>
    intro sources member source listed
    rcases List.mem_iff_getElem?.mp member with ⟨target, found⟩
    have noted : source ∈ relations.dependentsAt target := by
      rwa [dependentsAt, found]
    exact lawful.dependent_lt noted

end Relations

end FeatureAtlas
