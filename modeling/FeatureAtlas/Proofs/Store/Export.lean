import FeatureAtlas.Proofs.Sorting
import FeatureAtlas.Proofs.Store.Invariant

/-!
# Exported ledger entries

The records that a store exports are its ledger entries, each of them once and
in the order of product, version and signature.  No two entries agree in all
three, so the order leaves no choice: stores whose ledgers say the same export
the same list, in whatever order their ledgers were filled.
-/

namespace FeatureAtlas.Store

/-! ## The order of records -/

/-- Product, version and signature, compared one after the other. -/
def compareRecords : InvocationRecord → InvocationRecord → Ordering :=
  compareLex (compareOn (·.product))
    (compareLex (compareOn (·.version)) (compareOn (·.signature)))

theorem precedes_eq (left right : InvocationRecord) :
    precedes left right = (compareRecords left right).isLE :=
  rfl

instance : Std.TransCmp compareRecords :=
  inferInstanceAs (Std.TransCmp (compareLex _ (compareLex _ _)))

theorem precedes_total (left right : InvocationRecord) :
    precedes left right = true ∨ precedes right left = true := by
  have swapped :
      compareRecords right left = (compareRecords left right).swap :=
    Std.OrientedCmp.eq_swap
  rw [precedes_eq, precedes_eq, swapped]
  cases compareRecords left right with
  | lt => exact Or.inl rfl
  | eq => exact Or.inl rfl
  | gt => exact Or.inr rfl

theorem precedes_trans
    (first second third : InvocationRecord)
    (before : precedes first second = true)
    (behind : precedes second third = true) :
    precedes first third = true := by
  rw [precedes_eq] at before behind ⊢
  exact Std.TransCmp.isLE_trans before behind

/-- Records that precede each other stand for the same signature of a scope. -/
theorem key_eq_of_precedes
    {left right : InvocationRecord}
    (before : precedes left right = true)
    (behind : precedes right left = true) :
    left.scope = right.scope ∧ left.signature = right.signature := by
  have same : compareRecords left right = .eq :=
    Std.OrientedCmp.isLE_antisymm before behind
  simp only [compareRecords, compareLex, compareOn, Ordering.then_eq_eq,
    Std.LawfulEqCmp.compare_eq_iff_eq] at same
  rcases same with ⟨product, version, signature⟩
  refine ⟨?_, signature⟩
  rw [InvocationRecord.scope, InvocationRecord.scope, product, version]

/-! ## Entries and records -/

variable {store : Store}

theorem ledger_of_mem
    (sound : store.Sound) {scope : Scope} {ledger : Ledger}
    (member : (scope, ledger) ∈ store.ledgers.entries) :
    store.ledger scope = ledger := by
  rw [Store.ledger, (Table.get?_eq_some_iff sound.scopes).mpr member]
  rfl

/-- The exported records are the entries of the ledgers. -/
theorem mem_records_iff (sound : store.Sound) (record : InvocationRecord) :
    record ∈ store.records ↔
      (store.ledger record.scope).get? record.signature =
        some record.invoked := by
  rw [records, Sorting.mem_sortBy, List.mem_flatMap]
  constructor
  · rintro ⟨⟨scope, ledger⟩, member, exported⟩
    rcases List.mem_map.mp exported with ⟨⟨signature, invoked⟩, entered, rfl⟩
    have here : store.ledger scope = ledger := ledger_of_mem sound member
    have distinct := sound.signatures scope
    have entry : (signature, invoked) ∈ (store.ledger scope).entries := by
      rw [here]
      exact entered
    exact (Table.get?_eq_some_iff distinct).mpr entry
  · intro found
    have entry := Table.mem_of_get? found
    cases looked : store.ledgers.get? record.scope with
    | none =>
        rw [Store.ledger, looked] at entry
        cases entry
    | some ledger =>
        rw [Store.ledger, looked, Option.getD_some] at entry
        exact
          ⟨(record.scope, ledger), Table.mem_of_get? looked,
            List.mem_map.mpr ⟨_, entry, rfl⟩⟩

/-- No entry is exported twice. -/
theorem nodup_records (sound : store.Sound) : store.records.Nodup := by
  rw [records, (Sorting.sortBy_perm _ _).nodup_iff, List.nodup_flatMap]
  constructor
  · rintro ⟨scope, ledger⟩ member
    have distinct := sound.signatures scope
    rw [ledger_of_mem sound member] at distinct
    refine List.Nodup.map_on ?_ (List.Nodup.of_map _ distinct)
    rintro ⟨first, callees⟩ - ⟨second, others⟩ - same
    simp only [InvocationRecord.mk.injEq, true_and] at same
    rw [same.1, same.2]
  · refine (List.pairwise_map.mp sound.scopes).imp ?_
    rintro ⟨left, leftLedger⟩ ⟨right, rightLedger⟩ differ record here there
    rcases List.mem_map.mp here with ⟨first, -, rfl⟩
    rcases List.mem_map.mp there with ⟨second, -, same⟩
    simp only [InvocationRecord.mk.injEq] at same
    rcases same with ⟨product, version, -⟩
    apply differ
    exact congrArg₂ Scope.mk product.symm version.symm

/-- The exported records are in order. -/
theorem pairwise_records (store : Store) :
    store.records.Pairwise fun left right => precedes left right = true :=
  Sorting.pairwise_sortBy precedes_total precedes_trans _

theorem valid_of_mem_records
    (sound : store.Sound) {record : InvocationRecord}
    (member : record ∈ store.records) :
    record.invoked.Nodup ∧ record.IsValid :=
  sound.callees _ _ _ ((mem_records_iff sound record).mp member)

/-- Of one signature of a scope there is one record at most. -/
theorem eq_of_mem_records
    (sound : store.Sound) {left right : InvocationRecord}
    (leftIn : left ∈ store.records) (rightIn : right ∈ store.records)
    (scope : left.scope = right.scope)
    (signature : left.signature = right.signature) :
    left = right := by
  have here := (mem_records_iff sound left).mp leftIn
  have there := (mem_records_iff sound right).mp rightIn
  rw [scope, signature, there, Option.some.injEq] at here
  rcases left with ⟨product, version, named, invoked⟩
  rcases right with ⟨product', version', named', invoked'⟩
  simp only [InvocationRecord.scope, Scope.mk.injEq] at scope
  simp only at signature here
  rw [scope.1, scope.2, signature, here]

/-- Stores whose ledgers say the same export the same list. -/
theorem records_eq_of_ledgers
    {other : Store} (sound : store.Sound) (otherSound : other.Sound)
    (same :
      ∀ scope signature,
        (store.ledger scope).get? signature =
          (other.ledger scope).get? signature) :
    store.records = other.records := by
  have members :
      ∀ record, record ∈ store.records ↔ record ∈ other.records := by
    intro record
    rw [mem_records_iff sound, mem_records_iff otherSound, same]
  refine
    List.Perm.eq_of_pairwise ?_ (pairwise_records store)
      (pairwise_records other)
      ((List.perm_ext_iff_of_nodup (nodup_records sound)
        (nodup_records otherSound)).mpr members)
  intro left right leftIn rightIn before behind
  obtain ⟨scope, signature⟩ := key_eq_of_precedes before behind
  exact
    eq_of_mem_records sound leftIn ((members right).mpr rightIn) scope
      signature

/--
Stores that say the same: they list the same features in the same order, and
every signature has the same entry.
-/
structure Agrees (store other : Store) : Prop where
  features : store.features = other.features
  ledgers :
    ∀ scope signature,
      (store.ledger scope).get? signature =
        (other.ledger scope).get? signature

end FeatureAtlas.Store
