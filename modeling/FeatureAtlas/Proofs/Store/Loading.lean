import FeatureAtlas.Proofs.Store.LoadReport

/-!
# Loading what was exported

The features of a sound store are valid and of different identities, so the
loader lists each of them and warns of none.  The exported records are valid
too, and of each entry there is one: entering them all into a store without
ledgers rebuilds every entry, those without callees included.
-/

namespace FeatureAtlas.Store

/-! ## Features without a warning -/

theorem validFeatures_eq_self
    {features : List Feature}
    (valid : ∀ feature ∈ features, feature.IsValid) :
    validFeatures features = features :=
  List.filter_eq_self.mpr fun feature member =>
    decide_eq_true (valid feature member)

theorem validRecords_eq_self
    {records : List InvocationRecord}
    (valid : ∀ record ∈ records, record.IsValid) :
    validRecords records = records :=
  List.filter_eq_self.mpr fun record member =>
    decide_eq_true (valid record member)

/-- Valid features of different identities are listed as they are, so none of them is warned of. -/
theorem featureWarnings_eq_nil
    {features : List Feature}
    (valid : ∀ feature ∈ features, feature.IsValid)
    (distinct : (features.map (·.id)).Nodup) :
    (empty.putAll features).features = features ∧
      featureWarnings features = [] := by
  have listed : (empty.putAll features).features = features :=
    sound_empty.features_putAll valid distinct
  have counted := length_features features
  rw [validFeatures_eq_self valid, listed] at counted
  exact ⟨listed, List.eq_nil_of_length_eq_zero (Nat.left_eq_add.mp counted)⟩

theorem recordWarnings_eq_nil
    {records : List InvocationRecord}
    (valid : ∀ record ∈ records, record.IsValid) :
    recordWarnings records = [] := by
  rw [recordWarnings, List.filterMap_eq_nil_iff]
  rintro ⟨record, index⟩ member
  have checked : record.defect? = none :=
    valid record (List.fst_mem_of_mem_zipIdx member)
  rw [recordWarning?, checked, Option.map_none]

/-! ## Rebuilding the ledgers -/

section Exported

variable {store : Store} {scope : Scope} {signature : String}

/-- An entry is exported as one record. -/
theorem filter_concerns
    (sound : store.Sound) {invoked : List String}
    (found : (store.ledger scope).get? signature = some invoked) :
    store.records.filter (·.concerns scope signature) =
      [⟨scope.product, scope.version, signature, invoked⟩] := by
  apply List.perm_singleton.mp
  apply
    (List.perm_ext_iff_of_nodup ((nodup_records sound).filter _)
      (List.nodup_singleton _)).mpr
  intro record
  rw [List.mem_filter, InvocationRecord.concerns_iff, List.mem_singleton]
  constructor
  · rintro ⟨member, rfl, rfl⟩
    have here := (mem_records_iff sound record).mp member
    rw [here, Option.some.injEq] at found
    subst found
    rfl
  · rintro rfl
    exact ⟨(mem_records_iff sound _).mpr found, rfl, rfl⟩

/-- Entering the exported records of a store rebuilds its entries. -/
theorem get?_extend_records
    (sound : store.Sound) (features : List Feature) :
    ((empty.extend features store.records).ledger scope).get? signature =
      (store.ledger scope).get? signature := by
  rw [get?_extend_empty]
  cases found : (store.ledger scope).get? signature with
  | none =>
      have unconcerned :
          ¬store.records.any (·.concerns scope signature) = true := by
        rw [List.any_eq_true]
        rintro ⟨record, member, concerned⟩
        rcases InvocationRecord.concerns_iff.mp concerned with ⟨rfl, rfl⟩
        rw [(mem_records_iff sound record).mp member] at found
        cases found
      rw [if_neg unconcerned]
  | some invoked =>
      have exported := filter_concerns sound found
      have concerned :
          store.records.any (·.concerns scope signature) = true := by
        rw [List.any_eq_true]
        exact ⟨_, List.mem_filter.mp (exported ▸ List.mem_singleton_self _)⟩
      have distinct := (sound.callees scope signature invoked found).1
      rw [if_pos concerned, exported, List.flatMap_singleton]
      exact congrArg some (Distinct.addAll_eq_append distinct)

end Exported

/-! ## The loaded store -/

section Loaded

variable {store : Store}

/-- The exported records make the same ledgers, whatever is decoded as features. -/
theorem get?_ofReadings
    (sound : store.Sound) (features : Jsonl.Reading Feature) (scope : Scope)
    (signature : String) :
    ((ofReadings features ⟨store.records, []⟩).store.ledger scope).get?
        signature =
      (store.ledger scope).get? signature := by
  have valid : ∀ record ∈ store.records, record.IsValid :=
    fun record member => (valid_of_mem_records sound member).2
  rw [ofReadings_eq, validRecords_eq_self valid]
  exact get?_extend_records sound _

/-- What a sound store exports makes a store that says the same, without a warning. -/
theorem ofReadings_exported (sound : store.Sound) :
    (ofReadings ⟨store.features, []⟩ ⟨store.records, []⟩).warnings = [] ∧
      (ofReadings ⟨store.features, []⟩
        ⟨store.records, []⟩).store.Agrees store := by
  have valid : ∀ record ∈ store.records, record.IsValid :=
    fun record member => (valid_of_mem_records sound member).2
  rcases featureWarnings_eq_nil sound.valid sound.distinct with
    ⟨listed, silent⟩
  refine ⟨?_, ?_, get?_ofReadings sound _⟩
  · rw [ofReadings_eq, silent, recordWarnings_eq_nil valid]
    rfl
  · rw [ofReadings_eq, validFeatures_eq_self sound.valid]
    exact (features_extend _ _ _).trans listed

end Loaded

end FeatureAtlas.Store
