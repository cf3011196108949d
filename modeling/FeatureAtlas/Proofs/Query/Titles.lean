import FeatureAtlas.Proofs.Graph.Slices
import FeatureAtlas.Proofs.Query.Snapshots
import FeatureAtlas.Proofs.Store.Ingestion

/-!
# Questions about a title

A question about a title of a release fetches the features of this release and
asks the first of the relations that are built from them.  These relations
differ from those built from the whole catalog in places only, and a graph does
not depend on places.  So the question is answered as it is in the whole
catalog, for the first feature there that has the title, and fails only if
there is none.
-/

namespace FeatureAtlas.Store

/-- The first feature of a scope that has a title, in whatever group. -/
def titled? (store : Store) (scope : Scope) (title : String) : Option Feature :=
  store.features.find? fun feature =>
    feature.id.scope = scope ∧ feature.id.title = title

section Titles

variable {store : Store} {scope : Scope} {title : String}

theorem titled?_eq_none_iff :
    store.titled? scope title = none ↔
      ∀ feature ∈ store.features,
        feature.id.scope = scope → feature.id.title ≠ title := by
  simp [titled?, List.find?_eq_none]

theorem titled?_eq_some
    {before later : List Feature} {feature : Feature}
    (split : store.features = before ++ feature :: later)
    (first :
      ∀ earlier ∈ before,
        earlier.id.scope = scope → earlier.id.title ≠ title)
    (within : feature.id.scope = scope) (named : feature.id.title = title) :
    store.titled? scope title = some feature := by
  refine
    List.find?_eq_some_iff_append.mpr
      ⟨decide_eq_true ⟨within, named⟩, before, later, split, ?_⟩
  intro earlier member
  rw [Bool.not_eq_true', decide_eq_false_iff_not]
  exact fun passed => first earlier member passed.1 passed.2

/-- Relations of the whole catalog find by a title what the catalog lists first. -/
theorem byTitle?_eq_titled?
    {relations : Relations}
    (built : store.relations scope = .ok relations) :
    relations.byTitle? title = store.titled? scope title := by
  rw [Relations.byTitle?, (Relations.resolves_of_build built).members]
  simpa [titled?] using
    find?_firstCopies scope store.features fun id => id.title = title

/-- A release without features has none that could be found. -/
theorem titled?_of_ledgers_eq_nil
    (empty :
      (store.slice (.release scope.product scope.version)).ledgers = []) :
    store.titled? scope title = none := by
  rw [slice, List.map_eq_nil_iff, FeatureId.scopes,
    Distinct.ofList_eq_nil_iff, List.map_eq_nil_iff, List.map_eq_nil_iff,
    matching, List.filter_eq_nil_iff] at empty
  rw [titled?_eq_none_iff]
  intro feature member within
  exact
    absurd ((feature.id.inScope_iff scope).mpr within) (empty feature member)

/-! ## Answers -/

/--
A question to which places do not matter is answered for the first feature
with the title, as it is by the relations of the whole catalog.
-/
theorem withFeature_eq
    {α : Type} {question : Relations → FeatureId → Except Error α}
    (placeless :
      ∀ relations places id,
        question (relations.withPlaces places) id = question relations id)
    {relations : Relations}
    (built : store.relations scope = .ok relations) (home : Extent) :
    (store.service ⟨home, .firstWins⟩).withFeature scope title question =
      match store.titled? scope title with
      | none => .error (.featureNotFound scope title)
      | some feature => question relations feature.id := by
  rw [withFeature_service]
  rcases ledgers_release store scope with none | one
  · rw [Snapshot.relations, none, titled?_of_ledgers_eq_nil none]
    rfl
  · rw [← byTitle?_eq_titled? built]
    rw [Store.relations, Relations.build_featuresOf] at built
    cases found :
        Relations.build .firstWins (featuresOf scope store.features) scope
          (store.ledger scope) with
    | error problem =>
        rw [found] at built
        cases built
    | ok narrow =>
        rw [found] at built
        cases built
        have sliced :
            (store.slice (.release scope.product scope.version)).relations
                .firstWins =
              .ok [narrow] := by
          rw [Snapshot.relations, one, List.mapM_cons]
          show (Relations.build .firstWins (featuresOf scope store.features)
            scope (store.ledger scope)).bind _ = _
          rw [found]
          rfl
        rw [sliced]
        show Service.answer scope title question [narrow] = _
        rw [Service.answer]
        have same :
            (narrow.withPlaces
                (Membership.ofCatalog scope store.features).places).byTitle?
                title =
              narrow.byTitle? title :=
          rfl
        rw [same]
        cases narrow.byTitle? title with
        | none => rfl
        | some feature => exact (placeless _ _ _).symm

end Titles

/--
How a question about a title is answered, given what it is to ask of an
identity: for the first feature of the scope with the title, or not at all.
-/
structure AsksFirst {α : Type}
    (store : Store) (scope : Scope) (title : String)
    (direct : FeatureId → Except Error α) (answer : Except Error α) :
    Prop where
  missing :
    answer = .error (.featureNotFound scope title) ↔
      ∀ feature ∈ store.features,
        feature.id.scope = scope → feature.id.title ≠ title
  found :
    ∀ before feature later,
      store.features = before ++ feature :: later →
        (∀ earlier ∈ before,
            earlier.id.scope = scope → earlier.id.title ≠ title) →
          feature.id.scope = scope →
            feature.id.title = title →
              ∃ value, answer = .ok value ∧ direct feature.id = .ok value

/-- A question that members answer is asked of the first feature with the title. -/
theorem asksFirst_withFeature
    {α : Type} {question : Relations → FeatureId → Except Error α}
    {store : Store} {scope : Scope} {relations : Relations}
    (built : store.relations scope = .ok relations)
    (answers :
      ∀ feature ∈ relations.members,
        ∃ answer, question relations feature.id = .ok answer)
    (placeless :
      ∀ relations places id,
        question (relations.withPlaces places) id = question relations id)
    (home : Extent) (title : String) :
    store.AsksFirst scope title (question relations)
      ((store.service ⟨home, .firstWins⟩).withFeature scope title
        question) := by
  have answered {feature : Feature}
      (titled : store.titled? scope title = some feature) :
      ∃ answer, question relations feature.id = .ok answer := by
    rw [← byTitle?_eq_titled? built] at titled
    exact answers feature (List.mem_of_find?_eq_some titled)
  rw [withFeature_eq placeless built home]
  constructor
  case missing =>
    rw [← titled?_eq_none_iff]
    cases titled : store.titled? scope title with
    | none => simp
    | some feature =>
        obtain ⟨answer, given⟩ := answered titled
        simp [given]
  case found =>
    intro before feature later split first within named
    have titled := titled?_eq_some split first within named
    obtain ⟨answer, given⟩ := answered titled
    rw [titled]
    exact ⟨answer, given, given⟩

/--
Whatever a store holds, the three questions about a title are answered by the
relations of its whole catalog, for the first feature with the title.
-/
theorem titles_asked_of_catalog
    (store : Store) (home : Extent) (scope : Scope) (title : String) :
    ∃ relations,
      Relations.build .firstWins store.features scope (store.ledger scope) =
          .ok relations ∧
        store.AsksFirst scope title relations.graph
            ((store.service ⟨home, .firstWins⟩).graph scope title) ∧
          store.AsksFirst scope title relations.directDependencies
              ((store.service ⟨home, .firstWins⟩).dependencies scope
                title) ∧
            store.AsksFirst scope title relations.directDependents
              ((store.service ⟨home, .firstWins⟩).dependents scope title) := by
  obtain ⟨relations, built⟩ := exists_relations store scope
  have answers {α : Type} (value : Nat → α) (feature : Feature)
      (member : feature ∈ relations.members) :=
    (Relations.lawful_of_build built).exists_answer value member
  refine
    ⟨relations, built, asksFirst_withFeature built (answers _) ?_ home title,
      asksFirst_withFeature built (answers _) ?_ home title,
      asksFirst_withFeature built (answers _) ?_ home title⟩
  · intro relations places id
    rw [Relations.graph_withPlaces]
  · exact fun _ _ _ => rfl
  · exact fun _ _ _ => rfl

-- Of two groups that use a title the first in the catalog is asked about, behind another release.
example :
    (Store.service
          ⟨[⟨⟨"Shop", "", "Pay", "2"⟩, ["pay"]⟩,
              ⟨⟨"Shop", "Web", "Pay", "1"⟩, ["click"]⟩,
              ⟨⟨"Shop", "", "Pay", "1"⟩, ["pay"]⟩],
            .empty,
            .ofList
              [(⟨"Shop", "1"⟩, .ofList [("click", ["pay"])])]⟩
          ⟨.all, .firstWins⟩).dependencies ⟨"Shop", "1"⟩ "Pay" =
      .ok [⟨⟨"Shop", "", "Pay", "1"⟩, ["pay"]⟩] := by
  decide

end FeatureAtlas.Store
