import FeatureAtlas.Proofs.Distinct
import FeatureAtlas.Proofs.Graph.Rejection
import FeatureAtlas.Store.Basic

/-!
# What queries see of a store

A store as a backend never fails, so a query on it sees a slice: the features
in its extent and the ledgers of their scopes.  Each query is an answer from
the relations of this slice.  The slice of a release has at most one scope, so
a question about a title asks the first of the relations, if there are any.
-/

namespace FeatureAtlas

/-- The answer to a question about a title, from the relations in a release. -/
def Service.answer {α : Type}
    (scope : Scope) (title : String)
    (question : Relations → FeatureId → Except Error α) :
    List Relations → Except Error α
  | [] => .error (.featureNotFound scope title)
  | relations :: _ =>
    match relations.byTitle? title with
    | none => .error (.featureNotFound scope title)
    | some feature => question relations feature.id

namespace Store

/-- What queries on a store see of an extent. -/
def slice (store : Store) (extent : Extent) : Snapshot :=
  let catalog := store.matching extent.product? extent.version?
  { catalog := catalog
    ledgers :=
      (FeatureId.scopes (catalog.map (·.id))).map fun scope =>
        (scope, store.ledger scope) }

/-- Queries on a store under settings. -/
def service (store : Store) (settings : Settings) : Service :=
  ⟨store.backend, settings⟩

section Queries

variable (store : Store) (settings : Settings)

theorem snapshot_service (extent : Extent) :
    (store.service settings).snapshot extent = .ok (store.slice extent) := by
  have fetched (scopes : List Scope) :
      scopes.mapM (m := Except Error) (fun scope =>
          .ok (scope, store.ledger scope)) =
        .ok (scopes.map fun scope => (scope, store.ledger scope)) :=
    List.mapM_pure
  show Except.bind (List.mapM (fun scope => .ok (scope, _)) _) _ = _
  rw [fetched]
  rfl

/-- What a query makes of its snapshot it makes of the slice. -/
theorem snapshot_bind
    {α : Type} (extent : Extent) (query : Snapshot → Except Error α) :
    ((store.service settings).snapshot extent).bind query =
      query (store.slice extent) := by
  rw [snapshot_service]
  rfl

/-- The features in the slice of a release have its scope. -/
theorem scopes_release (scope : Scope) :
    FeatureId.scopes
          ((store.matching (some scope.product) (some scope.version)).map
            (·.id)) =
        [] ∨
      FeatureId.scopes
          ((store.matching (some scope.product) (some scope.version)).map
            (·.id)) =
        [scope] := by
  have inside :
      ∀ id ∈
          (store.matching (some scope.product) (some scope.version)).map
            (·.id),
        id.scope = scope := by
    intro id member
    rcases List.mem_map.mp member with ⟨feature, passed, rfl⟩
    exact
      (feature.id.inScope_iff scope).mp
        (List.mem_filter.mp passed).2
  cases listed :
      (store.matching (some scope.product) (some scope.version)).map
        (·.id) with
  | nil => exact Or.inl rfl
  | cons first others =>
      rw [listed] at inside
      rcases List.forall_mem_cons.mp inside with ⟨rfl, rest⟩
      apply Or.inr
      apply Distinct.ofList_of_forall_eq
      intro other member
      rcases List.mem_map.mp member with ⟨id, below, rfl⟩
      exact rest id below

/-- The scope of a release is the only one in its slice, if there is any. -/
theorem ledgers_release (scope : Scope) :
    (store.slice (.release scope.product scope.version)).ledgers = [] ∨
      (store.slice (.release scope.product scope.version)).ledgers =
        [(scope, store.ledger scope)] := by
  dsimp only [slice, Extent.product?, Extent.version?]
  rcases scopes_release store scope with none | one
  · rw [none]
    exact Or.inl rfl
  · rw [one]
    exact Or.inr rfl

end Queries

/-! ## Answers -/

section Answers

variable (store : Store) (settings : Settings) (extent : Extent)

theorem forest_service :
    (store.service settings).forest extent =
      ((store.slice extent).relations settings.policy).bind fun scopes =>
        .ok (.ofScopes scopes) :=
  snapshot_bind store settings extent _

theorem cycles_service :
    (store.service settings).cycles extent =
      ((store.slice extent).relations settings.policy).bind fun scopes =>
        .ok (scopes.flatMap (·.cycles)) :=
  snapshot_bind store settings extent _

theorem conflicts_service :
    (store.service settings).conflicts extent =
      ((store.slice extent).relations .firstWins).bind fun scopes =>
        .ok (scopes.flatMap (·.conflicts)) :=
  snapshot_bind store settings extent _

theorem withFeature_service
    {α : Type} (scope : Scope) (title : String)
    (question : Relations → FeatureId → Except Error α) :
    (store.service settings).withFeature scope title question =
      ((store.slice (.release scope.product scope.version)).relations
        settings.policy).bind (Service.answer scope title question) := by
  apply
    (snapshot_bind store settings
      (.release scope.product scope.version) _).trans
  have shape := ledgers_release store scope
  generalize store.slice (.release scope.product scope.version) = slice at *
  rcases slice with ⟨catalog, ledgers⟩
  rcases shape with none | one
  · subst none
    rfl
  · subst one
    rw [Snapshot.relations_cons]
    show (Relations.build settings.policy catalog scope _).bind _ = _
    cases Relations.build settings.policy catalog scope (store.ledger scope)
    · rfl
    · rfl

end Answers

end Store

end FeatureAtlas
