import FeatureAtlas.Proofs.Store.Invariant

/-!
# Stores that can come about

A store comes about from the empty one by operations, each of which may
succeed or be rejected.  Loading is one of them: it replaces the store by what
two files hold, whatever they hold.  All these stores are sound.
-/

namespace FeatureAtlas.Store

/-- What may be asked of a store that changes it. -/
inductive Operation
  | upsert (feature : Feature)
  | record (record : InvocationRecord)
  | recordInvocations
      (product version signature : String) (invoked : List String)
  | recordAll (records : List InvocationRecord)
  | ingest (report : Report)
  | load (disk : Disk) (paths : DataPaths)

/-- The store after an operation, whatever the outcome. -/
def after (store : Store) : Operation → Store
  | .upsert feature => (store.upsert feature).2
  | .record record => (store.record record).2
  | .recordInvocations product version signature invoked =>
      (store.record ⟨product, version, signature, invoked⟩).2
  | .recordAll records => (store.recordAll records).2
  | .ingest report => (store.ingest report).2
  | .load disk paths =>
      match Store.load disk paths with
      | .ok loading => loading.store
      | .error _ => store

/-- The store after operations on the empty one. -/
def run (operations : List Operation) : Store :=
  operations.foldl after empty

/-! ## Operations one by one -/

/-- Ingesting leaves what recording the flattened report leaves. -/
theorem ingest_snd (store : Store) (report : Report) :
    (store.ingest report).2 = (store.recordAll report.flatten).2 := by
  simp only [ingest]
  cases recorded : store.recordAll report.flatten with
  | mk outcome next => cases outcome <;> rfl

namespace Sound

variable {store : Store}

theorem upsert (sound : store.Sound) (feature : Feature) :
    (store.upsert feature).2.Sound := by
  unfold Store.upsert
  cases checked : feature.defect? with
  | some defect => exact sound
  | none => exact sound.put checked

theorem record (sound : store.Sound) (record : InvocationRecord) :
    (store.record record).2.Sound := by
  unfold Store.record
  cases checked : record.defect? with
  | some defect => exact sound
  | none => exact sound.enter checked

theorem recordAll
    (sound : store.Sound) (records : List InvocationRecord) :
    (store.recordAll records).2.Sound := by
  unfold Store.recordAll
  cases checked : records.findSome? InvocationRecord.defect? with
  | some defect => exact sound
  | none =>
      refine sound.foldl_enter ?_
      intro record member
      exact List.findSome?_eq_none_iff.mp checked record member

theorem ingest (sound : store.Sound) (report : Report) :
    (store.ingest report).2.Sound := by
  rw [ingest_snd]
  exact sound.recordAll report.flatten

/-! ## Loading -/

theorem takeFeature
    {loading : Loading} (sound : loading.store.Sound)
    (entry : Feature × Nat) :
    (Store.takeFeature loading entry).store.Sound := by
  rcases entry with ⟨feature, index⟩
  rw [Store.takeFeature]
  cases checked : feature.defect? with
  | some defect => exact sound
  | none =>
      have next := sound.put checked
      simp only
      cases entered : loading.store.put feature with
      | mk replaced after =>
          rw [entered] at next
          cases replaced <;> exact next

theorem takeRecord
    {loading : Loading} (sound : loading.store.Sound)
    (entry : InvocationRecord × Nat) :
    (Store.takeRecord loading entry).store.Sound := by
  rcases entry with ⟨record, index⟩
  rw [Store.takeRecord]
  cases checked : record.defect? with
  | some defect => exact sound
  | none => exact sound.enter checked

end Sound

/-- Whatever two files hold, the store that is loaded from them is sound. -/
theorem sound_ofReadings
    (features : Jsonl.Reading Feature)
    (records : Jsonl.Reading InvocationRecord) :
    (ofReadings features records).store.Sound := by
  rw [ofReadings]
  refine
    List.foldlRecOn
      (motive := fun loading : Loading => loading.store.Sound) _ _ ?_ ?_
  · refine
      List.foldlRecOn
        (motive := fun loading : Loading => loading.store.Sound) _ _
        sound_empty ?_
    intro loading sound entry _
    exact sound.takeFeature entry
  · intro loading sound entry _
    exact sound.takeRecord entry

theorem sound_load
    {disk : Disk} {paths : DataPaths} {loading : Loading}
    (loaded : load disk paths = .ok loading) :
    loading.store.Sound := by
  rw [load] at loaded
  cases first : readData disk paths.features Feature.reader with
  | error problem =>
      rw [first] at loaded
      cases loaded
  | ok features =>
      cases second : readData disk paths.invocations InvocationRecord.reader with
      | error problem =>
          rw [first, second] at loaded
          cases loaded
      | ok records =>
          rw [first, second] at loaded
          cases loaded
          exact sound_ofReadings features records

/-! ## Runs -/

theorem Sound.after
    {store : Store} (sound : store.Sound) (operation : Operation) :
    (store.after operation).Sound := by
  cases operation with
  | upsert feature => exact sound.upsert feature
  | record record => exact sound.record record
  | recordInvocations product version signature invoked =>
      exact sound.record _
  | recordAll records => exact sound.recordAll records
  | ingest report => exact sound.ingest report
  | load disk paths =>
      rw [Store.after]
      cases loaded : Store.load disk paths with
      | error problem => exact sound
      | ok loading => exact sound_load loaded

/-- Every store that comes about by operations is sound. -/
theorem sound_run (operations : List Operation) : (run operations).Sound := by
  rw [run]
  refine List.foldlRecOn _ _ sound_empty ?_
  intro store sound operation _
  exact sound.after operation

end FeatureAtlas.Store
