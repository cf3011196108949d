import FeatureAtlas.Graph.Ownership
import FeatureAtlas.Ledger

/-!
# One-hop relations

The members of a scope are its features in catalog order, each identity once.
A member depends on the owners of the signatures that its own signatures
invoke, in declaration order and then in recorded order; it never depends on
itself. Dependents are the inverse, in catalog order. Members are named by
their positions.
-/

namespace FeatureAtlas

/-- The features of one scope, each identity once. -/
structure Membership where
  members : List Feature
  /-- The position of each member in the catalog. -/
  places : List Nat
  /-- The position of each identity among the members. -/
  positions : Table FeatureId Nat
deriving DecidableEq, Repr

namespace Membership

def empty : Membership :=
  ⟨[], [], .empty⟩

/-- Add a feature from a place of the catalog if it is in the scope and new. -/
def enlist (scope : Scope) (membership : Membership) (entry : Feature × Nat) : Membership :=
  let (feature, place) := entry
  if !feature.id.inScope scope || membership.positions.contains feature.id then membership
  else
    { members := membership.members ++ [feature]
      places := membership.places ++ [place]
      positions := membership.positions.insert feature.id membership.members.length }

/-- The members of a scope in a catalog. -/
def ofCatalog (scope : Scope) (catalog : List Feature) : Membership :=
  catalog.zipIdx.foldl (enlist scope) empty

end Membership

/-- The relations between the members of one scope. -/
structure Relations where
  scope : Scope
  membership : Membership
  ownership : Ownership
  /-- For each member the members that it depends on. -/
  dependencies : List (List Nat)
  /-- For each member the members that depend on it. -/
  dependents : List (List Nat)
deriving DecidableEq, Repr

namespace Relations

/-- The members that the member at a position depends on. -/
def resolve (ownership : Ownership) (ledger : Ledger) (entry : Feature × Nat) : List Nat :=
  let (feature, position) := entry
  let targets := feature.signatures.flatMap ledger.callees
  Distinct.ofList ((targets.filterMap ownership.position?).filter (· ≠ position))

/-- Note that one member depends on another. -/
def noteDependent (dependent : Nat) (dependents : List (List Nat)) (target : Nat) :
    List (List Nat) :=
  dependents.modify target (· ++ [dependent])

/-- The inverse of dependency lists. -/
def invert (dependencies : List (List Nat)) : List (List Nat) :=
  dependencies.zipIdx.foldl
    (fun dependents (targets, dependent) => targets.foldl (noteDependent dependent) dependents)
    (dependencies.map fun _ => [])

/-- The relations of a scope in a catalog under the ledger of the scope. -/
def build (policy : ConflictPolicy) (catalog : List Feature) (scope : Scope)
    (ledger : Ledger) : Except Error Relations := do
  let membership := Membership.ofCatalog scope catalog
  let ownership ← Ownership.build policy membership.members
  let dependencies := membership.members.zipIdx.map (resolve ownership ledger)
  .ok
    { scope := scope
      membership := membership
      ownership := ownership
      dependencies := dependencies
      dependents := invert dependencies }

/-- The members in catalog order. -/
def members (relations : Relations) : List Feature :=
  relations.membership.members

def size (relations : Relations) : Nat :=
  relations.members.length

/-- The conflicts among the declarations of the members. -/
def conflicts (relations : Relations) : List Conflict :=
  relations.ownership.conflicts

def member? (relations : Relations) (position : Nat) : Option Feature :=
  relations.members[position]?

def idAt (relations : Relations) (position : Nat) : FeatureId :=
  ((relations.member? position).map (·.id)).getD default

def placeAt (relations : Relations) (position : Nat) : Nat :=
  relations.membership.places[position]?.getD 0

/-- The positions that the member at a position depends on. -/
def dependenciesAt (relations : Relations) (position : Nat) : List Nat :=
  relations.dependencies[position]?.getD []

/-- The positions that depend on the member at a position. -/
def dependentsAt (relations : Relations) (position : Nat) : List Nat :=
  relations.dependents[position]?.getD []

/-- The first member with a title. -/
def byTitle? (relations : Relations) (title : String) : Option Feature :=
  relations.members.find? fun feature => feature.id.title = title

def position (relations : Relations) (id : FeatureId) : Except Error Nat :=
  match relations.membership.positions.get? id with
  | some position => .ok position
  | none => .error (.featureNotFound id.scope id.title)

def directDependencies (relations : Relations) (id : FeatureId) :
    Except Error (List Feature) := do
  let position ← relations.position id
  .ok ((relations.dependenciesAt position).filterMap relations.member?)

def directDependents (relations : Relations) (id : FeatureId) :
    Except Error (List Feature) := do
  let position ← relations.position id
  .ok ((relations.dependentsAt position).filterMap relations.member?)

/-- The positions of the members that nothing depends on. -/
def rootPositions (relations : Relations) : List Nat :=
  (List.range relations.size).filter fun position =>
    (relations.dependentsAt position).isEmpty

/-- The members that nothing depends on, in catalog order. -/
def roots (relations : Relations) : List Feature :=
  relations.rootPositions.filterMap relations.member?

end Relations

end FeatureAtlas
