import FeatureAtlas.Proofs.Store.Log

/-!
# Consistent stores

Whatever operations a store comes about by, its table of positions has exactly
one entry for each listed feature, no callee list repeats itself, and counting
the ledger entries gives the number of exported records, all of which are
valid.  An operation that fails leaves the store as it is; a batch of records
fails if any of them is invalid, and the first of these is reported.
-/

namespace FeatureAtlas.Store

/-! ## Contents -/

section Contents

variable {store : Store}

/-- The table of positions holds the listed identities, each once. -/
theorem Sound.keys_perm (sound : store.Sound) :
    store.positions.keys.Perm (store.features.map (·.id)) := by
  apply (List.perm_ext_iff_of_nodup sound.indexed sound.distinct).mpr
  intro id
  exact Table.mem_keys_iff.trans (sound.get?_isSome_iff id)

theorem Sound.size_positions (sound : store.Sound) :
    store.positions.size = store.features.length := by
  have same := sound.keys_perm.length_eq
  rw [Table.keys, List.length_map, List.length_map] at same
  exact same

/-- A listed feature is found where it stands. -/
theorem Sound.get?_positions
    (sound : store.Sound) {position : Nat} {feature : Feature}
    (standing : store.features[position]? = some feature) :
    store.positions.get? feature.id = some position := by
  apply (sound.located feature.id position).mpr
  simp [standing]

/-- Counting the entries of all ledgers counts the exported records. -/
theorem invocationCount_eq (store : Store) :
    store.invocationCount = store.records.length := by
  have counted (entries : List (Scope × Ledger)) :
      entries.foldr (fun entry total => entry.2.size + total) 0 =
        (entries.flatMap recordsOf).length := by
    induction entries with
    | nil => rfl
    | cons entry entries induction =>
        rw [List.foldr_cons, induction, List.flatMap_cons,
          List.length_append, recordsOf, List.length_map, Table.size]
  exact
    (counted store.ledgers.entries).trans
      (Sorting.sortBy_perm precedes _).length_eq.symm

end Contents

/-! ## Failures -/

section Failures

variable (store : Store)

/-- An operation that fails leaves the store as it is. -/
theorem after_of_rejected
    {operation : Operation} (rejected : operation.accepted store = false) :
    store.after operation = store := by
  cases loads : operation.loads with
  | false =>
      rcases after_cases store loads with ⟨-, accepted, -⟩ | ⟨-, -, kept⟩
      · exact absurd (rejected.symm.trans accepted) Bool.false_ne_true
      · exact kept
  | true =>
      cases operation with
      | load disk paths =>
          rw [after]
          cases loaded : Store.load disk paths with
          | ok loading =>
              rw [Operation.accepted, loaded] at rejected
              cases rejected
          | error problem => rfl
      | _ => cases loads

/-- A batch of records is rejected if one of them is invalid, wherever it stands. -/
theorem recordAll_rejected_iff (records : List InvocationRecord) :
    (store.recordAll records).1.isOk = false ↔
      ∃ record ∈ records, ¬record.IsValid := by
  rcases recordAll_cases store records with
    ⟨valid, accepted, -⟩ | ⟨invalid, rejected, -⟩
  · constructor
    · intro rejected
      exact absurd (rejected.symm.trans accepted) Bool.false_ne_true
    · rintro ⟨record, member, invalid⟩
      exact absurd (valid record member) invalid
  · rw [rejected]
    simpa using invalid

/-- A rejected batch reports the defect of the first invalid record. -/
theorem recordAll_error
    {records : List InvocationRecord} {error : Error}
    (failed : (store.recordAll records).1 = .error error) :
    ∃ before record later defect,
      records = before ++ record :: later ∧
        (∀ earlier ∈ before, earlier.IsValid) ∧
          record.defect? = some defect ∧
            error = .invalidRecord defect := by
  rw [recordAll] at failed
  cases checked : records.findSome? InvocationRecord.defect? with
  | none =>
      rw [checked] at failed
      cases failed
  | some defect =>
      rw [checked] at failed
      rcases List.findSome?_eq_some_iff.mp checked with
        ⟨before, record, later, parts, found, valid⟩
      exact
        ⟨before, record, later, defect, parts, valid, found,
          (Except.error.inj failed).symm⟩

end Failures

/-! ## Every store -/

/--
The list of features, the table of positions and the ledgers fit together, and
all that is stored has passed its checks.
-/
structure Consistent (store : Store) : Prop where
  /-- The table of positions has one entry for each listed feature. -/
  counted :
    store.positions.keys.Nodup ∧
      store.positions.size = store.features.length
  /-- The entry of a feature points at it. -/
  located :
    ∀ position feature,
      store.features[position]? = some feature →
        store.positions.get? feature.id = some position
  distinct : (store.features.map (·.id)).Nodup
  valid : ∀ feature ∈ store.features, feature.IsValid
  exported : ∀ record ∈ store.records, record.IsValid
  callees :
    ∀ scope signature, ((store.ledger scope).callees signature).Nodup
  entries : store.invocationCount = store.records.length

/--
Operations on a store that fail do so without effect, and a batch fails by its
first invalid record.
-/
structure FailsCleanly (store : Store) : Prop where
  unchanged :
    ∀ operation,
      operation.accepted store = false → store.after operation = store
  batch :
    ∀ records,
      (store.recordAll records).1.isOk = false ↔
        ∃ record ∈ records, ¬record.IsValid
  first :
    ∀ records error,
      (store.recordAll records).1 = .error error →
        ∃ before record later defect,
          records = before ++ record :: later ∧
            (∀ earlier ∈ before, earlier.IsValid) ∧
              record.defect? = some defect ∧
                error = .invalidRecord defect

theorem Sound.consistent
    {store : Store} (sound : store.Sound) : store.Consistent where
  counted := ⟨sound.indexed, sound.size_positions⟩
  located := fun _ _ => sound.get?_positions
  distinct := sound.distinct
  valid := sound.valid
  exported := fun _ member => (valid_of_mem_records sound member).2
  callees := fun scope signature => (sound.callees_of scope signature).1
  entries := invocationCount_eq store

/--
Every store that comes about by operations, loading among them, is consistent,
and whatever fails on it leaves it alone.
-/
theorem run_consistent (operations : List Operation) :
    (run operations).Consistent ∧ (run operations).FailsCleanly := by
  refine ⟨(sound_run operations).consistent, ?_⟩
  exact
    { unchanged := fun _ => after_of_rejected _
      batch := recordAll_rejected_iff _
      first := fun _ _ => recordAll_error _ }

end FeatureAtlas.Store
