import FeatureAtlas.Proofs.Disk.Temporary
import FeatureAtlas.Proofs.Store.SaveLoad

/-!
# Feature files that are taken

The ledger is saved after the features.  If the feature file is the invocation
file, or the temporary file of that one, the ledger takes its place: what is
found there is the ledger, or nothing.  Neither holds a feature, so the loaded
store has the whole ledger and no features.
-/

namespace FeatureAtlas.Store

section Save

variable {store : Store} {disk saved : Disk} {paths : DataPaths}

/-- The text of a ledger holds no features. -/
theorem features_recordText (store : Store) :
    (Jsonl.read Feature.reader store.recordText).records = [] :=
  Jsonl.records_read_refused (fun record _ => record.standsFor)
    fun record _ => Feature.reader_refuses_record record

/-- A feature file whose place is taken by the ledger holds no features after a save. -/
theorem readData_of_save
    (done : store.save disk paths = (.ok (), saved))
    (taken : ¬paths.Separate disk) :
    ∃ features,
      readData saved paths.features Feature.reader = .ok features ∧
        features.records = [] := by
  have confined := confined_of_save done
  rcases save_eq_ok done with ⟨between, first, second⟩
  have short := (Jsonl.fits_of_replace first).1
  have otherShort := Jsonl.fits_of_replace second
  by_cases files : disk.Apart paths.features paths.invocations
  · have aside :
        ¬disk.Apart paths.features (Path.temporary paths.invocations) :=
      fun temporary => taken ⟨files, temporary⟩
    have gone : saved.read paths.features = .error .missing :=
      (confined.read_eq_of_not_apart short otherShort.2 aside).trans
        (Jsonl.read_temporary_of_replace second)
    rw [readData, Jsonl.readFrom, gone]
    exact ⟨.empty, rfl, rfl⟩
  · have ledger : saved.read paths.features = .ok store.recordText :=
      (confined.read_eq_of_not_apart short otherShort.1 files).trans
        (read_invocations_of_save done)
    rw [readData, Jsonl.readFrom, ledger]
    exact ⟨_, rfl, store.features_recordText⟩

/-- After such a save the whole ledger is loaded, and no features. -/
theorem load_of_save_taken
    (sound : store.Sound) (done : store.save disk paths = (.ok (), saved))
    (taken : ¬paths.Separate disk) :
    ∃ loading,
      load saved paths = .ok loading ∧
        loading.store.features = [] ∧
          ∀ scope signature,
            (loading.store.ledger scope).get? signature =
              (store.ledger scope).get? signature := by
  rcases readData_of_save done taken with ⟨features, first, bare⟩
  have second :
      readData saved paths.invocations InvocationRecord.reader =
        .ok ⟨store.records, []⟩ :=
    readData_written (fun record _ => record.standsFor)
      (read_invocations_of_save done)
  refine
    ⟨ofReadings features ⟨store.records, []⟩, ?_, ?_,
      get?_ofReadings sound features⟩
  · rw [load, first, second]
    rfl
  · rw [ofReadings_eq, bare, features_extend]
    rfl

end Save

end FeatureAtlas.Store
