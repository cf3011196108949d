import FeatureAtlas.Proofs.Query.Releases

/-!
# What a query fetches

A query lists the features of its extent and then fetches the ledger of each of
their scopes, in the order in which the scopes are first seen.  Either all of
this succeeds, or there is a first fetch that fails, and this ends the query.
What is not seen in the listing is not fetched.
-/

namespace FeatureAtlas

/-- The scopes of features, in the order in which they are first seen. -/
def scopesSeen (catalog : List Feature) : List Scope :=
  (catalog.map (·.id.scope)).eraseDups

/-- The features are listed, and the ledgers of all their scopes are fetched. -/
structure Fetches
    (backend : Backend) (extent : Extent) (catalog : List Feature) : Prop where
  listed : backend.listFeatures extent.product? extent.version? = .ok catalog
  fetched :
    ∀ scope ∈ scopesSeen catalog,
      ∃ ledger, backend.invocations scope = .ok ledger

/-- A fetch fails with an error, and all fetches before it succeed. -/
inductive FetchFails
    (backend : Backend) (extent : Extent) (error : Error) : Prop
  | listing
      (failed :
        backend.listFeatures extent.product? extent.version? = .error error)
  | ledger (catalog : List Feature) (before : List Scope) (scope : Scope)
      (later : List Scope)
      (listed :
        backend.listFeatures extent.product? extent.version? = .ok catalog)
      (seen : scopesSeen catalog = before ++ scope :: later)
      (passed :
        ∀ earlier ∈ before,
          ∃ ledger, backend.invocations earlier = .ok ledger)
      (failed : backend.invocations scope = .error error)

/-- The ledger of a scope together with the scope. -/
def Backend.fetch (backend : Backend) (scope : Scope) :
    Except Error (Scope × Ledger) :=
  (backend.invocations scope).map fun ledger => (scope, ledger)

section Collecting

variable {α β : Type} {elements : List α}

/-- What is collected depends on the answers for the elements alone. -/
theorem mapM_congr_of_mem
    {answer other : α → Except Error β}
    (same : ∀ element ∈ elements, other element = answer element) :
    elements.mapM other = elements.mapM answer := by
  induction elements with
  | nil => rfl
  | cons first rest induction =>
      rcases List.forall_mem_cons.mp same with ⟨here, others⟩
      rw [mapM_cons_eq_bind, mapM_cons_eq_bind, here, induction others]

end Collecting

section Snapshots

variable {service : Service} {backend : Backend} {extent : Extent}
variable {catalog : List Feature}

theorem scopes_eq_scopesSeen (catalog : List Feature) :
    FeatureId.scopes (catalog.map (·.id)) = scopesSeen catalog := by
  rw [FeatureId.scopes, Distinct.ofList_eq_eraseDups, List.map_map]
  rfl

theorem snapshot_eq (service : Service) (extent : Extent) :
    service.snapshot extent =
      (service.backend.listFeatures extent.product? extent.version?).bind
        fun catalog =>
          ((scopesSeen catalog).mapM service.backend.fetch).bind
            fun ledgers => .ok ⟨catalog, ledgers⟩ := by
  simp only [← scopes_eq_scopesSeen]
  have fetched (scope : Scope) :
      service.backend.fetch scope =
        (service.backend.invocations scope).bind fun ledger =>
          .ok (scope, ledger) :=
    bind_ok_eq_map.symm
  simp only [funext fetched]
  rfl

/-- Either all fetches succeed or one is the first to fail. -/
theorem fetches_or_fetchFails (backend : Backend) (extent : Extent) :
    (∃ catalog, Fetches backend extent catalog) ∨
      ∃ error, FetchFails backend extent error := by
  cases listed :
      backend.listFeatures extent.product? extent.version? with
  | error error => exact Or.inr ⟨error, .listing listed⟩
  | ok catalog =>
      have isOk_iff (scope : Scope) :
          (backend.invocations scope).isOk = true ↔
            ∃ ledger, backend.invocations scope = .ok ledger := by
        cases backend.invocations scope <;> simp [Except.isOk, Except.toBool]
      cases found :
          (scopesSeen catalog).find? fun scope =>
            !(backend.invocations scope).isOk with
      | none =>
          refine Or.inl ⟨catalog, listed, ?_⟩
          intro scope member
          rw [← isOk_iff]
          simpa using List.find?_eq_none.mp found scope member
      | some scope =>
          obtain ⟨failed, before, later, seen, passed⟩ :=
            List.find?_eq_some_iff_append.mp found
          cases problem : backend.invocations scope with
          | ok ledger => simp [problem, Except.isOk, Except.toBool] at failed
          | error error =>
              refine
                Or.inr
                  ⟨error, .ledger catalog before scope later listed seen ?_
                    problem⟩
              intro earlier member
              rw [← isOk_iff]
              simpa using passed earlier member

/-- A fetch that fails ends the query. -/
theorem snapshot_of_fetchFails
    {error : Error} (fails : FetchFails service.backend extent error) :
    service.snapshot extent = .error error := by
  rw [snapshot_eq]
  cases fails with
  | listing failed =>
      rw [failed]
      rfl
  | ledger catalog before scope later listed seen passed failed =>
      have ended :
          (scopesSeen catalog).mapM service.backend.fetch =
            .error error := by
        rw [seen]
        refine mapM_eq_error_of_first ?_ ?_
        · intro earlier member
          obtain ⟨ledger, fetched⟩ := passed earlier member
          rw [Backend.fetch, fetched]
          exact ⟨_, rfl⟩
        · rw [Backend.fetch, failed]
          rfl
      rw [listed]
      show ((scopesSeen catalog).mapM service.backend.fetch).bind _ = _
      rw [ended]
      rfl

/-- If all fetches succeed, the snapshot has a ledger for each scope that is seen. -/
theorem snapshot_of_fetches
    (fetches : Fetches service.backend extent catalog) :
    ∃ ledgerAt : Scope → Ledger,
      service.snapshot extent =
        .ok
          ⟨catalog,
            (scopesSeen catalog).map fun scope =>
              (scope, ledgerAt scope)⟩ := by
  let ledgerAt (scope : Scope) : Ledger :=
    ((service.backend.invocations scope).toOption).getD .empty
  have each :
      ∀ scope ∈ scopesSeen catalog,
        service.backend.fetch scope = .ok (scope, ledgerAt scope) := by
    intro scope member
    obtain ⟨ledger, fetched⟩ := fetches.fetched scope member
    simp only [Backend.fetch, ledgerAt, fetched]
    rfl
  refine ⟨ledgerAt, ?_⟩
  rw [snapshot_eq, fetches.listed]
  show ((scopesSeen catalog).mapM service.backend.fetch).bind _ = _
  rw [mapM_eq_ok_map each]
  rfl

/-- What is not seen is not fetched. -/
theorem snapshot_congr
    {other : Service}
    (listings :
      other.backend.listFeatures extent.product? extent.version? =
        service.backend.listFeatures extent.product? extent.version?)
    (ledgers :
      ∀ catalog,
        service.backend.listFeatures extent.product? extent.version? =
            .ok catalog →
          ∀ scope ∈ scopesSeen catalog,
            other.backend.invocations scope =
              service.backend.invocations scope) :
    other.snapshot extent = service.snapshot extent := by
  rw [snapshot_eq, snapshot_eq, listings]
  cases listed :
      service.backend.listFeatures extent.product? extent.version? with
  | error error => rfl
  | ok catalog =>
      show
        ((scopesSeen catalog).mapM other.backend.fetch).bind _ =
          ((scopesSeen catalog).mapM service.backend.fetch).bind _
      rw [mapM_congr_of_mem]
      intro scope member
      rw [Backend.fetch, Backend.fetch, ledgers catalog listed scope member]

end Snapshots

end FeatureAtlas
