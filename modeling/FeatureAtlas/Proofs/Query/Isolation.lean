import FeatureAtlas.Proofs.Query.Snapshots
import FeatureAtlas.Proofs.Report.Calls
import FeatureAtlas.Proofs.Store.Log

/-!
# Releases are isolated

Features of all releases share one list and one table of positions.  Yet an
operation that names other releases only replaces features of these, in their
places, appends features of these and enters records of these.  So it leaves
what queries see of a release as it is, features in their order and ledger
alike, and after any number of such operations the release gives the same
answers.
-/

namespace FeatureAtlas

/-- Elements that fail a test take the places of each other without being seen by it. -/
theorem filter_set_eq_self
    {α : Type} {test : α → Bool} {list : List α} {position : Nat}
    {old new : α}
    (here : list[position]? = some old)
    (oldFails : test old = false) (newFails : test new = false) :
    (list.set position new).filter test = list.filter test := by
  rcases List.getElem?_eq_some_iff.mp here with ⟨inside, stands⟩
  have split :
      ∃ before later,
        list = before ++ list[position] :: later ∧
          before.length = position ∧
            list.set position new = before ++ new :: later :=
    List.exists_of_set inside
  rcases split with ⟨before, later, parts, -, replaced⟩
  rw [replaced, parts, stands]
  simp [oldFails, newFails]

namespace Store

/-- Whether an operation names a scope; loading may bring any. -/
def Operation.names (scope : Scope) : Operation → Bool
  | .upsert feature => feature.id.scope = scope
  | .record entry => entry.scope = scope
  | .recordInvocations product version _ _ =>
      (⟨product, version⟩ : Scope) = scope
  | .recordAll entries => entries.any fun entry => entry.scope = scope
  | .ingest report => report.scope = scope
  | .load _ _ => true

/-- Two stores hold the same of a scope: its features in the same order, and its ledger. -/
structure SameIn (scope : Scope) (store other : Store) : Prop where
  features :
    other.matching (some scope.product) (some scope.version) =
      store.matching (some scope.product) (some scope.version)
  ledger : other.ledger scope = store.ledger scope

namespace SameIn

variable {scope : Scope} {first second third : Store}

theorem refl (scope : Scope) (store : Store) : SameIn scope store store :=
  ⟨rfl, rfl⟩

theorem trans
    (left : SameIn scope first second) (right : SameIn scope second third) :
    SameIn scope first third :=
  ⟨right.features.trans left.features, right.ledger.trans left.ledger⟩

/-- Queries see the same of the release. -/
theorem slice_eq (same : SameIn scope first second) :
    second.slice (.release scope.product scope.version) =
      first.slice (.release scope.product scope.version) := by
  dsimp only [slice, Extent.product?, Extent.version?]
  rw [same.features]
  rcases scopes_release first scope with none | one
  · rw [none]
    rfl
  · rw [one, List.map_singleton, List.map_singleton, same.ledger]

end SameIn

/-! ## One operation -/

section Step

variable {store : Store} {scope : Scope}

/-- A feature of another scope is not seen by the test for a scope. -/
theorem passes_of_ne {id : FeatureId} (elsewhere : id.scope ≠ scope) :
    Extent.passes (some scope.product) (some scope.version) id = false := by
  apply Bool.eq_false_iff.mpr
  intro inside
  exact elsewhere ((id.inScope_iff scope).mp inside)

theorem Sound.matching_put
    (sound : store.Sound) {feature : Feature}
    (elsewhere : feature.id.scope ≠ scope) :
    (store.put feature).2.matching (some scope.product)
        (some scope.version) =
      store.matching (some scope.product) (some scope.version) := by
  have unseen := passes_of_ne elsewhere
  cases found : store.positions.get? feature.id with
  | none =>
      rw [put_of_missing found, matching, List.filter_append,
        List.filter_singleton, unseen]
      exact List.append_nil _
  | some position =>
      -- What is replaced has the same identity, so it is of the same scope.
      have here := (sound.located _ position).mp found
      rw [List.getElem?_map, Option.map_eq_some_iff] at here
      rcases here with ⟨old, standing, same⟩
      rw [put_of_found found]
      apply filter_set_eq_self standing
      · rw [same]
        exact unseen
      · exact unseen

theorem Sound.matching_putAll
    (sound : store.Sound) {features : List Feature}
    (valid : ∀ feature ∈ features, feature.IsValid)
    (elsewhere : ∀ feature ∈ features, feature.id.scope ≠ scope) :
    (store.putAll features).matching (some scope.product)
        (some scope.version) =
      store.matching (some scope.product) (some scope.version) := by
  induction features generalizing store with
  | nil => rfl
  | cons feature features induction =>
      rcases List.forall_mem_cons.mp valid with ⟨here, others⟩
      rcases List.forall_mem_cons.mp elsewhere with ⟨apart, othersApart⟩
      exact
        (induction (sound.put here) others othersApart).trans
          (sound.matching_put apart)

/-- Features and records of other scopes leave a scope as it is. -/
theorem Sound.sameIn_extend
    (sound : store.Sound) {features : List Feature}
    {records : List InvocationRecord}
    (valid : ∀ feature ∈ features, feature.IsValid)
    (elsewhere : ∀ feature ∈ features, feature.id.scope ≠ scope)
    (recordsElsewhere : ∀ record ∈ records, record.scope ≠ scope) :
    SameIn scope store (store.extend features records) where
  features := by
    rw [matching, features_extend]
    exact sound.matching_putAll valid elsewhere
  ledger := by
    rw [extend, ledger_foldl_enter_of_ne _ recordsElsewhere, ledger,
      ledgers_putAll]
    rfl

/-- What an operation brings is of the scopes that it names. -/
theorem Operation.elsewhere_of_names
    {operation : Operation} (unnamed : operation.names scope = false) :
    operation.loads = false ∧
      (∀ feature ∈ operation.features, feature.id.scope ≠ scope) ∧
        ∀ record ∈ operation.records, record.scope ≠ scope := by
  cases operation with
  | upsert feature =>
      have apart := of_decide_eq_false unnamed
      refine ⟨rfl, ?_, List.forall_mem_nil _⟩
      exact List.forall_mem_singleton.mpr apart
  | record entry =>
      have apart := of_decide_eq_false unnamed
      refine ⟨rfl, List.forall_mem_nil _, ?_⟩
      exact List.forall_mem_singleton.mpr apart
  | recordInvocations product version signature invoked =>
      have apart := of_decide_eq_false unnamed
      refine ⟨rfl, List.forall_mem_nil _, ?_⟩
      exact List.forall_mem_singleton.mpr apart
  | recordAll entries =>
      refine ⟨rfl, List.forall_mem_nil _, ?_⟩
      intro entry member
      exact mt decide_eq_true (List.any_eq_false.mp unnamed entry member)
  | ingest report =>
      have apart := of_decide_eq_false unnamed
      refine ⟨rfl, List.forall_mem_nil _, ?_⟩
      intro record member
      rw [Report.scope_of_mem_flatten member]
      exact apart
  | load disk paths => cases unnamed

/--
An operation that names other scopes only leaves a scope as it is, whether it
is accepted or rejected.
-/
theorem Sound.sameIn_after
    (sound : store.Sound) {operation : Operation}
    (unnamed : operation.names scope = false) :
    SameIn scope store (store.after operation) := by
  rcases Operation.elsewhere_of_names unnamed with
    ⟨unloaded, features, records⟩
  rcases after_cases store unloaded with ⟨valid, -, next⟩ | ⟨-, -, kept⟩
  · rw [next]
    exact sound.sameIn_extend valid.1 features records
  · rw [kept]
    exact SameIn.refl scope store

end Step

/-! ## All operations -/

theorem Sound.sameIn_foldl_after
    {store : Store} {scope : Scope} (sound : store.Sound)
    {operations : List Operation}
    (elsewhere : ∀ operation ∈ operations, operation.names scope = false) :
    SameIn scope store (operations.foldl Store.after store) := by
  induction operations generalizing store with
  | nil => exact SameIn.refl scope store
  | cons operation rest induction =>
      rcases List.forall_mem_cons.mp elsewhere with ⟨unnamed, others⟩
      exact
        (sound.sameIn_after unnamed).trans
          (induction (sound.after operation) others)

/-- Two stores answer all queries about a scope alike, under all settings. -/
structure SameAnswers (scope : Scope) (store other : Store) : Prop where
  graph :
    ∀ settings title,
      (other.service settings).graph scope title =
        (store.service settings).graph scope title
  dependencies :
    ∀ settings title,
      (other.service settings).dependencies scope title =
        (store.service settings).dependencies scope title
  dependents :
    ∀ settings title,
      (other.service settings).dependents scope title =
        (store.service settings).dependents scope title
  forest :
    ∀ settings,
      (other.service settings).forest
          (.release scope.product scope.version) =
        (store.service settings).forest
          (.release scope.product scope.version)
  cycles :
    ∀ settings,
      (other.service settings).cycles
          (.release scope.product scope.version) =
        (store.service settings).cycles
          (.release scope.product scope.version)
  conflicts :
    ∀ settings,
      (other.service settings).conflicts
          (.release scope.product scope.version) =
        (store.service settings).conflicts
          (.release scope.product scope.version)

/-- Stores that hold the same of a scope answer queries about it alike. -/
theorem SameIn.sameAnswers
    {scope : Scope} {store other : Store}
    (same : SameIn scope store other) :
    SameAnswers scope store other := by
  have questions {α : Type}
      (question : Relations → FeatureId → Except Error α)
      (settings : Settings) (title : String) :
      (other.service settings).withFeature scope title question =
        (store.service settings).withFeature scope title question := by
    rw [withFeature_service, withFeature_service, same.slice_eq]
  exact
    { graph := questions Relations.graph
      dependencies := questions Relations.directDependencies
      dependents := questions Relations.directDependents
      forest := by
        intro settings
        rw [forest_service, forest_service, same.slice_eq]
      cycles := by
        intro settings
        rw [cycles_service, cycles_service, same.slice_eq]
      conflicts := by
        intro settings
        rw [conflicts_service, conflicts_service, same.slice_eq] }

/--
Operations that name other releases only leave all answers about a release as
they are, whatever the store came about by.
-/
theorem run_append_sameAnswers
    (operations others : List Operation) (scope : Scope)
    (elsewhere : ∀ operation ∈ others, operation.names scope = false) :
    SameAnswers scope (run operations) (run (operations ++ others)) := by
  rw [run, run, List.foldl_append]
  have sound := sound_run operations
  exact (sound.sameIn_foldl_after elsewhere).sameAnswers

/-! ### A release behind another one -/

/--
Two features of a release, of which one depends on the other, and between them
one of the next release.
-/
def interleaved : List Operation :=
  [.upsert ⟨⟨"Shop", "", "Pay", "1"⟩, ["pay"]⟩,
    .upsert ⟨⟨"Shop", "", "Pay", "2"⟩, ["pay"]⟩,
    .upsert ⟨⟨"Shop", "", "Ship", "1"⟩, ["ship"]⟩,
    .record ⟨"Shop", "1", "pay", ["ship"]⟩]

/--
The next release is changed: a feature of it is replaced, another one declares
the same signature, and calls are recorded.
-/
def revised : List Operation :=
  [.upsert ⟨⟨"Shop", "", "Pay", "2"⟩, ["pay", "ship"]⟩,
    .upsert ⟨⟨"Shop", "", "Ship", "2"⟩, ["ship"]⟩,
    .recordAll [⟨"Shop", "2", "pay", ["log"]⟩, ⟨"Shop", "2", " ", []⟩],
    .ingest ⟨"Shop", "2", [.node "ship" [.node "pay" []]]⟩]

/-- Afterwards the next release has a conflict, and the first one gives its answer as before. -/
theorem run_append_sameAnswers_of_revised :
    (∀ operation ∈ revised,
        operation.names ⟨"Shop", "1"⟩ = false) ∧
      ((run (interleaved ++ revised)).service
            ⟨.all, .reject⟩).dependencies ⟨"Shop", "1"⟩ "Pay" =
          .ok [⟨⟨"Shop", "", "Ship", "1"⟩, ["ship"]⟩] ∧
        ((run (interleaved ++ revised)).service
            ⟨.all, .reject⟩).dependencies ⟨"Shop", "2"⟩ "Pay" =
          .error
            (.ambiguousOwner "ship" ⟨"Shop", "", "Pay", "2"⟩
              ⟨"Shop", "", "Ship", "2"⟩) := by
  have elsewhere :
      ∀ operation ∈ revised, operation.names ⟨"Shop", "1"⟩ = false := by
    decide
  have isolates :=
    run_append_sameAnswers interleaved revised ⟨"Shop", "1"⟩ elsewhere
  refine ⟨elsewhere, ?_, ?_⟩
  · exact (isolates.dependencies _ _).trans (by decide)
  · decide

end Store

end FeatureAtlas
