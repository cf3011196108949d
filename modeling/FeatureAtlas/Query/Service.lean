import FeatureAtlas.Graph.Cycles
import FeatureAtlas.Graph.Forest
import FeatureAtlas.Query.Backend

/-!
# Queries

Every query first takes a snapshot: the features in its extent and the ledger
of each scope among them. The answer is built from the snapshot alone, so a
backend failure comes before everything else.
-/

namespace FeatureAtlas

/-- A backend and the settings of the queries on it. -/
structure Service where
  backend : Backend
  settings : Settings

/-- The features in the extent of a query and the ledgers of their scopes. -/
structure Snapshot where
  catalog : List Feature
  ledgers : List (Scope × Ledger)

/-- The relations of every scope of a snapshot. -/
def Snapshot.relations (snapshot : Snapshot) (policy : ConflictPolicy) :
    Except Error (List Relations) :=
  snapshot.ledgers.mapM fun (scope, ledger) =>
    Relations.build policy snapshot.catalog scope ledger

namespace Service

/-- Fetch the features in an extent, and then the ledger of each scope among them. -/
def snapshot (service : Service) (extent : Extent) : Except Error Snapshot := do
  let catalog ← service.backend.listFeatures extent.product? extent.version?
  let ledgers ← (FeatureId.scopes (catalog.map (·.id))).mapM fun scope => do
    let ledger ← service.backend.invocations scope
    .ok (scope, ledger)
  .ok ⟨catalog, ledgers⟩

def forest (service : Service) (extent : Extent) : Except Error Forest := do
  let snapshot ← service.snapshot extent
  let scopes ← snapshot.relations service.settings.policy
  .ok (.ofScopes scopes)

/-- The graphs of all roots in the extent of the settings. -/
def defaultForest (service : Service) : Except Error Forest :=
  service.forest service.settings.extent

/-- The groups of features in an extent that depend on each other. -/
def cycles (service : Service) (extent : Extent) : Except Error (List Cycle) := do
  let snapshot ← service.snapshot extent
  let scopes ← snapshot.relations service.settings.policy
  .ok (scopes.flatMap (·.cycles))

/-- The signatures in an extent that more than one feature declares, whatever the policy. -/
def conflicts (service : Service) (extent : Extent) : Except Error (List Conflict) := do
  let snapshot ← service.snapshot extent
  let scopes ← snapshot.relations .firstWins
  .ok (scopes.flatMap (·.conflicts))

/-- Answer a question about the first feature of a scope with a title. -/
def withFeature {α : Type} (service : Service) (scope : Scope) (title : String)
    (question : Relations → FeatureId → Except Error α) : Except Error α := do
  let snapshot ← service.snapshot (.release scope.product scope.version)
  match snapshot.ledgers with
  | [] => .error (.featureNotFound scope title)
  | (scope', ledger) :: _ =>
    let relations ←
      Relations.build service.settings.policy snapshot.catalog scope' ledger
    match relations.byTitle? title with
    | none => .error (.featureNotFound scope title)
    | some feature => question relations feature.id

def graph (service : Service) (scope : Scope) (title : String) :
    Except Error FeatureGraph :=
  service.withFeature scope title Relations.graph

def dependencies (service : Service) (scope : Scope) (title : String) :
    Except Error (List Feature) :=
  service.withFeature scope title Relations.directDependencies

def dependents (service : Service) (scope : Scope) (title : String) :
    Except Error (List Feature) :=
  service.withFeature scope title Relations.directDependents

end Service

end FeatureAtlas
