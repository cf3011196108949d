import FeatureAtlas.Proofs.Graph.Slices
import FeatureAtlas.Proofs.Query.Snapshots

/-!
# Queries over many releases

A query that reaches several releases answers for each of them as a query for
this release alone does: cycles and conflicts come release by release, and the
forest restricted to a release is the forest of the release, however the
releases alternate in the catalog.  A query fails exactly if it fails for one
of the releases, and then as it fails for the first such one.
-/

namespace FeatureAtlas

/-! ## Collecting answers -/

section Mapping

variable {α β : Type} {found : Except Error α} {part : α → β}

theorem bind_ok_eq_map :
    (found.bind fun value => .ok (part value)) = found.map part := by
  cases found <;> rfl

theorem map_eq_error_iff {error : Error} :
    found.map part = .error error ↔ found = .error error := by
  cases found <;> simp [Except.map]

theorem exists_map_eq_ok_iff :
    (∃ value, found.map part = .ok value) ↔ ∃ value, found = .ok value := by
  cases found <;> simp [Except.map]

end Mapping

section Collecting

variable {α β : Type} {answer : α → Except Error β} {elements : List α}

theorem mapM_cons_eq_bind (answer : α → Except Error β) (first : α) (rest : List α) :
    (first :: rest).mapM answer =
      (answer first).bind fun value =>
        (rest.mapM answer).bind fun values => .ok (value :: values) :=
  List.mapM_cons

/-- Answers that are all there are collected. -/
theorem mapM_eq_ok_map
    {value : α → β}
    (each : ∀ element ∈ elements, answer element = .ok (value element)) :
    elements.mapM answer = .ok (elements.map value) := by
  induction elements with
  | nil => rfl
  | cons first rest induction =>
      rcases List.forall_mem_cons.mp each with ⟨here, others⟩
      rw [mapM_cons_eq_bind, here, induction others]
      rfl

/-- The first failure ends the collection. -/
theorem mapM_eq_error_of_first
    {before later : List α} {element : α} {error : Error}
    (passed : ∀ earlier ∈ before, ∃ value, answer earlier = .ok value)
    (failed : answer element = .error error) :
    (before ++ element :: later).mapM answer = .error error := by
  induction before with
  | nil =>
      rw [List.nil_append, mapM_cons_eq_bind, failed]
      rfl
  | cons first rest induction =>
      rcases List.forall_mem_cons.mp passed with ⟨⟨value, here⟩, others⟩
      rw [List.cons_append, mapM_cons_eq_bind, here, Except.bind,
        induction others]
      rfl

/-- A collection fails exactly if one of the answers does. -/
theorem exists_mapM_eq_error_iff :
    (∃ error, elements.mapM answer = .error error) ↔
      ∃ element ∈ elements, ∃ error, answer element = .error error := by
  induction elements with
  | nil =>
      constructor
      · rintro ⟨error, failed⟩
        cases failed
      · rintro ⟨element, member, -⟩
        cases member
  | cons first rest induction =>
      rw [List.exists_mem_cons_iff, ← induction, mapM_cons_eq_bind]
      cases answer first with
      | error problem =>
          constructor
          · exact fun _ => Or.inl ⟨problem, rfl⟩
          · exact fun _ => ⟨problem, rfl⟩
      | ok value =>
          cases rest.mapM answer with
          | error problem =>
              constructor
              · exact fun _ => Or.inr ⟨problem, rfl⟩
              · exact fun _ => ⟨problem, rfl⟩
          | ok values =>
              constructor
              · rintro ⟨error, failed⟩
                cases failed
              · rintro (⟨error, failed⟩ | ⟨error, failed⟩)
                · cases failed
                · cases failed

end Collecting

namespace Store

/-! ## The releases in an extent -/

/-- The releases of the features in an extent, in the order in which they first occur. -/
def releases (store : Store) (extent : Extent) : List Scope :=
  store.scopes.filter fun scope =>
    extent.product?.all fun name => scope.product == name

/-- The relations of a release, from its own features. -/
def relationsOf (store : Store) (policy : ConflictPolicy) (release : Scope) :
    Except Error Relations :=
  Relations.build policy
    (store.matching (some release.product) (some release.version)) release
    (store.ledger release)

section Extents

variable {store : Store} {extent : Extent}

theorem scopes_matching (whole : extent.version? = none) :
    FeatureId.scopes
        ((store.matching extent.product? extent.version?).map (·.id)) =
      store.releases extent := by
  rw [releases, scopes, FeatureId.scopes, FeatureId.scopes,
    Distinct.filter_ofList, matching, List.map_map, List.map_map,
    List.filter_map]
  congr 2
  apply List.filter_congr
  intro feature _
  simp [Extent.passes, whole, FeatureId.scope]

/-- A query over an extent builds the relations of its releases one after the other. -/
theorem relations_slice
    (whole : extent.version? = none) (policy : ConflictPolicy) :
    (store.slice extent).relations policy =
      (store.releases extent).mapM fun release =>
        Relations.build policy
          (store.matching extent.product? extent.version?) release
          (store.ledger release) := by
  rw [slice, scopes_matching whole]
  exact List.mapM_map

theorem nodup_releases : (store.releases extent).Nodup :=
  (Distinct.nodup_ofList _).filter _

/-- Filters that all features of a release pass leave them as they are. -/
theorem featuresOf_matching_of_passes
    {product? version? : Option String} {release : Scope}
    (passes :
      ∀ id : FeatureId,
        id.scope = release → Extent.passes product? version? id = true) :
    featuresOf release (store.matching product? version?) =
      store.matching (some release.product) (some release.version) := by
  rw [featuresOf, matching, matching, List.filter_filter]
  apply List.filter_congr
  intro feature _
  have inside :
      Extent.passes (some release.product) (some release.version)
          feature.id =
        feature.id.inScope release :=
    rfl
  rw [inside, Bool.eq_iff_iff, Bool.and_eq_true, and_iff_left_iff_imp]
  intro same
  exact passes feature.id ((feature.id.inScope_iff release).mp same)

/-- The features of a release are found in every extent that reaches it. -/
theorem featuresOf_matching
    (whole : extent.version? = none) {release : Scope}
    (listed : release ∈ store.releases extent) :
    featuresOf release (store.matching extent.product? extent.version?) =
      store.matching (some release.product) (some release.version) := by
  have reached := (List.mem_filter.mp listed).2
  apply featuresOf_matching_of_passes
  rintro id rfl
  rw [Extent.passes, whole]
  exact Bool.and_eq_true_iff.mpr ⟨reached, rfl⟩

/-- Built within an extent, the relations of a release differ in places only. -/
theorem build_matching
    (whole : extent.version? = none) {release : Scope}
    (listed : release ∈ store.releases extent) (policy : ConflictPolicy) :
    Relations.build policy
        (store.matching extent.product? extent.version?) release
        (store.ledger release) =
      (store.relationsOf policy release).map
        (·.withPlaces
          (Membership.ofCatalog release
            (store.matching extent.product? extent.version?)).places) := by
  rw [Relations.build_featuresOf, featuresOf_matching whole listed]
  rfl

/-- A release that has features is all that a query for it sees. -/
theorem relations_release
    {release : Scope} (known : release ∈ store.scopes)
    (policy : ConflictPolicy) :
    (store.slice (.release release.product release.version)).relations
        policy =
      (store.relationsOf policy release).map ([·]) := by
  have seen :
      FeatureId.scopes
          ((store.matching (some release.product)
            (some release.version)).map (·.id)) =
        [release] := by
    refine (scopes_release store release).resolve_left ?_
    intro none
    rw [scopes, FeatureId.scopes, Distinct.mem_ofList, List.map_map] at known
    rcases List.mem_map.mp known with ⟨feature, member, scope⟩
    have passes :
        feature ∈
          store.matching (some release.product) (some release.version) :=
      List.mem_filter.mpr
        ⟨member, (feature.id.inScope_iff release).mpr scope⟩
    have occurs :
        feature.id.scope ∈
          FeatureId.scopes
            ((store.matching (some release.product)
              (some release.version)).map (·.id)) := by
      rw [FeatureId.scopes, Distinct.mem_ofList]
      exact List.mem_map_of_mem (List.mem_map_of_mem passes)
    rw [none] at occurs
    cases occurs
  dsimp only [slice, Extent.product?, Extent.version?]
  rw [seen, List.map_singleton, Snapshot.relations_cons]
  show (store.relationsOf policy release).bind _ = _
  cases store.relationsOf policy release <;> rfl

end Extents

/-! ## Answers -/

section Answers

variable {store : Store} {release : Scope}

/-- The extent of a release. -/
def extentOf (release : Scope) : Extent :=
  .release release.product release.version

theorem forest_release
    (known : release ∈ store.scopes) (settings : Settings) :
    (store.service settings).forest (extentOf release) =
      (store.relationsOf settings.policy release).map
        fun relations => .ofScopes [relations] := by
  rw [forest_service, extentOf, relations_release known]
  cases store.relationsOf settings.policy release <;> rfl

theorem cycles_release
    (known : release ∈ store.scopes) (settings : Settings) :
    (store.service settings).cycles (extentOf release) =
      (store.relationsOf settings.policy release).map (·.cycles) := by
  rw [cycles_service, extentOf, relations_release known]
  cases store.relationsOf settings.policy release with
  | error problem => rfl
  | ok relations => exact congrArg Except.ok (List.append_nil _)

theorem conflicts_release
    (known : release ∈ store.scopes) (settings : Settings) :
    (store.service settings).conflicts (extentOf release) =
      (store.relationsOf .firstWins release).map (·.conflicts) := by
  rw [conflicts_service, extentOf, relations_release known]
  cases store.relationsOf .firstWins release with
  | error problem => rfl
  | ok relations => exact congrArg Except.ok (List.append_nil _)

theorem exists_relationsOf (store : Store) (release : Scope) :
    ∃ relations, store.relationsOf .firstWins release = .ok relations :=
  Relations.exists_build_firstWins _ _ _

end Answers

/-! ## Failures -/

/--
A query over releases fails exactly if it fails for one of them, and then as
it does for the first such one.
-/
structure FailsWithFirst {α β : Type}
    (releases : List Scope) (narrow : Scope → Except Error α)
    (wide : Except Error β) : Prop where
  fails :
    (∃ error, wide = .error error) ↔
      ∃ release ∈ releases, ∃ error, narrow release = .error error
  first :
    ∀ before release later error,
      releases = before ++ release :: later →
        (∀ earlier ∈ before, ∃ answer, narrow earlier = .ok answer) →
          narrow release = .error error → wide = .error error

/-- An answer from relations fails as the search for the relations does. -/
theorem failsWithFirst
    {α β : Type} {store : Store} {extent : Extent}
    (whole : extent.version? = none) {policy : ConflictPolicy}
    {narrow : Scope → Except Error α} {part : Relations → α}
    (each :
      ∀ release ∈ store.releases extent,
        narrow release = (store.relationsOf policy release).map part)
    (answer : List Relations → β) :
    FailsWithFirst (store.releases extent) narrow
      (((store.slice extent).relations policy).map answer) := by
  have wide :
      (store.slice extent).relations policy =
        (store.releases extent).mapM fun release =>
          Relations.build policy
            (store.matching extent.product? extent.version?) release
            (store.ledger release) :=
    relations_slice whole policy
  have agrees {release : Scope} (listed : release ∈ store.releases extent)
      (error : Error) :
      narrow release = .error error ↔
        Relations.build policy
            (store.matching extent.product? extent.version?) release
            (store.ledger release) =
          .error error := by
    rw [each release listed, build_matching whole listed, map_eq_error_iff,
      map_eq_error_iff]
  constructor
  · simp only [map_eq_error_iff, wide]
    rw [exists_mapM_eq_error_iff]
    constructor
    · rintro ⟨release, listed, error, problem⟩
      exact ⟨release, listed, error, (agrees listed error).mpr problem⟩
    · rintro ⟨release, listed, error, problem⟩
      exact ⟨release, listed, error, (agrees listed error).mp problem⟩
  · intro before release later error parts passed problem
    rw [map_eq_error_iff, wide, parts]
    refine mapM_eq_error_of_first ?_ ?_
    · intro earlier member
      have listed : earlier ∈ store.releases extent := by
        rw [parts]
        exact List.mem_append_left _ member
      have passes := passed earlier member
      rw [each earlier listed, exists_map_eq_ok_iff] at passes
      rw [build_matching whole listed, exists_map_eq_ok_iff]
      exact passes
    · have listed : release ∈ store.releases extent := by
        rw [parts]
        exact List.mem_append_right _ List.mem_cons_self
      exact (agrees listed error).mp problem

/-! ## Sums -/

/-- A query over an extent comes to the queries for its releases. -/
structure SumsReleases
    (store : Store) (home extent : Extent) : Prop where
  forest :
    ∃ wide,
      (store.service ⟨home, .firstWins⟩).forest extent = .ok wide ∧
        (∀ id ∈ wide.rootIds, id.scope ∈ store.releases extent) ∧
          ∀ release ∈ store.releases extent,
            ∃ narrow,
              (store.service ⟨home, .firstWins⟩).forest
                  (extentOf release) =
                .ok narrow ∧
                wide.ShowsOf release narrow
  cycles :
    ∃ cyclesOf,
      (∀ release ∈ store.releases extent,
        (store.service ⟨home, .firstWins⟩).cycles (extentOf release) =
          .ok (cyclesOf release)) ∧
        (store.service ⟨home, .firstWins⟩).cycles extent =
          .ok ((store.releases extent).flatMap cyclesOf)
  /-- Conflicts are listed whatever the policy is. -/
  conflicts :
    ∃ conflictsOf,
      ∀ policy,
        (∀ release ∈ store.releases extent,
          (store.service ⟨home, policy⟩).conflicts (extentOf release) =
            .ok (conflictsOf release)) ∧
          (store.service ⟨home, policy⟩).conflicts extent =
            .ok ((store.releases extent).flatMap conflictsOf)
  rejectedForest :
    FailsWithFirst (store.releases extent)
      (fun release =>
        (store.service ⟨home, .reject⟩).forest (extentOf release))
      ((store.service ⟨home, .reject⟩).forest extent)
  rejectedCycles :
    FailsWithFirst (store.releases extent)
      (fun release =>
        (store.service ⟨home, .reject⟩).cycles (extentOf release))
      ((store.service ⟨home, .reject⟩).cycles extent)

section Sums

variable (store : Store)

/-- Where conflicts are only listed, the relations of all releases of an extent are found. -/
theorem exists_relations_slice
    {extent : Extent} (whole : extent.version? = none) :
    ∃ (relationsAt : Scope → Relations) (placesAt : Scope → List Nat),
      (∀ release,
        store.relationsOf .firstWins release = .ok (relationsAt release)) ∧
        (∀ release ∈ store.releases extent,
          Relations.build .firstWins
              (store.matching extent.product? extent.version?) release
              (store.ledger release) =
            .ok ((relationsAt release).withPlaces (placesAt release))) ∧
          (store.slice extent).relations .firstWins =
            .ok
              ((store.releases extent).map fun release =>
                (relationsAt release).withPlaces (placesAt release)) := by
  choose relationsAt found using exists_relationsOf store
  have built :
      ∀ release ∈ store.releases extent,
        Relations.build .firstWins
            (store.matching extent.product? extent.version?) release
            (store.ledger release) =
          .ok
            ((relationsAt release).withPlaces
              (Membership.ofCatalog release
                (store.matching extent.product? extent.version?)).places) := by
    intro release listed
    rw [build_matching whole listed, found]
    rfl
  refine ⟨relationsAt, _, found, built, ?_⟩
  rw [relations_slice whole]
  exact mapM_eq_ok_map built

/-- The forest of an extent shows each release as the forest of the release does. -/
theorem forest_sums
    {extent : Extent} (whole : extent.version? = none) (home : Extent) :
    ∃ wide,
      (store.service ⟨home, .firstWins⟩).forest extent = .ok wide ∧
        (∀ id ∈ wide.rootIds, id.scope ∈ store.releases extent) ∧
          ∀ release ∈ store.releases extent,
            ∃ narrow,
              (store.service ⟨home, .firstWins⟩).forest
                  (extentOf release) =
                .ok narrow ∧
                wide.ShowsOf release narrow := by
  obtain ⟨relationsAt, placesAt, found, built, sliced⟩ :=
    exists_relations_slice store whole
  have scopeAt (release : Scope) : (relationsAt release).scope = release :=
    (Relations.builtFrom_of_build (found release)).scope_eq
  generalize same :
      ((store.releases extent).map fun release =>
        (relationsAt release).withPlaces (placesAt release)) = all at sliced
  have each :
      ∀ relations ∈ all,
        ∃ policy scope ledger,
          Relations.build policy
              (store.matching extent.product? extent.version?) scope
              ledger =
            .ok relations := by
    intro relations member
    rw [← same] at member
    rcases List.mem_map.mp member with ⟨release, listed, rfl⟩
    exact ⟨_, _, _, built release listed⟩
  have scopes : all.map (·.scope) = store.releases extent := by
    rw [← same, List.map_map]
    exact List.map_id'' scopeAt _
  have apart : (all.map (·.scope)).Nodup := scopes ▸ nodup_releases
  have family := Relations.family_of_built each apart
  refine ⟨.ofScopes all, ?_, ?_, ?_⟩
  · rw [forest_service, sliced]
    rfl
  · intro id member
    rw [Forest.rootIds_ofScopes family] at member
    obtain ⟨relations, relationsIn, root⟩ :=
      (Forest.mem_map_id_rootsOf family id).mp member
    have scope := (family.lawful relations relationsIn).scope_of_isRoot root
    rw [scope, ← scopes]
    exact List.mem_map_of_mem relationsIn
  · intro release listed
    refine ⟨.ofScopes [relationsAt release], ?_, ?_⟩
    · rw [forest_release (List.mem_of_mem_filter listed), found]
      rfl
    · have alone :
          Relations.build .firstWins
              (featuresOf (relationsAt release).scope
                (store.matching extent.product? extent.version?))
              (relationsAt release).scope (store.ledger release) =
            .ok (relationsAt release) := by
        rw [scopeAt release, featuresOf_matching whole listed]
        exact found release
      have member :
          (relationsAt release).withPlaces (placesAt release) ∈ all := by
        rw [← same]
        exact List.mem_map.mpr ⟨release, listed, rfl⟩
      have shows := Forest.showsOf_ofScopes each apart alone member
      rw [scopeAt release] at shows
      exact shows

/--
Whatever a store holds, a query over all releases or over those of one product
comes to the queries for these releases.
-/
theorem queries_sum_releases (home : Extent) :
    store.SumsReleases home .all ∧
      ∀ product, store.SumsReleases home (.product product) := by
  have sums {extent : Extent} (whole : extent.version? = none) :
      store.SumsReleases home extent := by
    obtain ⟨relationsAt, placesAt, found, -, sliced⟩ :=
      exists_relations_slice store whole
    have known {release : Scope} (listed : release ∈ store.releases extent) :
        release ∈ store.scopes :=
      List.mem_of_mem_filter listed
    refine ⟨forest_sums store whole home, ?_, ?_, ?_, ?_⟩
    · refine ⟨fun release => (relationsAt release).cycles, ?_, ?_⟩
      · intro release listed
        rw [cycles_release (known listed), found]
        rfl
      · rw [cycles_service, sliced]
        refine congrArg Except.ok ?_
        rw [List.flatMap_map]
        simp only [Relations.cycles_withPlaces]
    · refine ⟨fun release => (relationsAt release).conflicts, ?_⟩
      intro policy
      constructor
      · intro release listed
        rw [conflicts_release (known listed), found]
        rfl
      · rw [conflicts_service, sliced]
        refine congrArg Except.ok ?_
        rw [List.flatMap_map]
        rfl
    · rw [forest_service, bind_ok_eq_map]
      exact
        failsWithFirst whole
          (fun release listed => forest_release (known listed) _) _
    · rw [cycles_service, bind_ok_eq_map]
      exact
        failsWithFirst whole
          (fun release listed => cycles_release (known listed) _) _
  exact ⟨sums rfl, fun product => sums rfl⟩

end Sums

end Store

end FeatureAtlas
