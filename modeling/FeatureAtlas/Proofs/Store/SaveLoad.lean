import FeatureAtlas.Proofs.Disk.Confinement
import FeatureAtlas.Proofs.Jsonl.RoundTrip
import FeatureAtlas.Proofs.Store.Loading

/-!
# Saving and loading

A store can always be put into text, and saving leaves the two texts behind
the two paths if these lead to different files; whatever comes of it, only
these files and their temporary files are touched.  Loading the texts yields a
store that says the same, and since the order of the lines depends on nothing
but what a store says, saving the loaded store writes the same bytes.
-/

namespace FeatureAtlas

/-- The paths that saving at data paths touches. -/
def DataPaths.touched (paths : DataPaths) : List String :=
  [Path.temporary paths.features, paths.features,
    Path.temporary paths.invocations, paths.invocations]

/-- The feature file is neither the invocation file nor the temporary file of that one. -/
structure DataPaths.Separate (paths : DataPaths) (disk : Disk) : Prop where
  files : disk.Apart paths.features paths.invocations
  temporary : disk.Apart paths.features (Path.temporary paths.invocations)

namespace Store

/-! ## The texts of a store -/

/-- The text of the feature file. -/
def featureText (store : Store) : Bytes :=
  store.features.flatMap fun feature => Jsonl.lineOf feature.toValue

/-- The text of the invocation file. -/
def recordText (store : Store) : Bytes :=
  store.records.flatMap fun record => Jsonl.lineOf record.toValue

theorem content_featureLines (store : Store) :
    Jsonl.content store.featureLines = .ok store.featureText :=
  Jsonl.content_written store.features Feature.toValue

theorem content_recordLines (store : Store) :
    Jsonl.content store.recordLines = .ok store.recordText :=
  Jsonl.content_written store.records InvocationRecord.toValue

/-! ## Saving -/

section Save

variable {store : Store} {disk saved : Disk} {paths : DataPaths}

/-- Saving replaces the two files one after the other. -/
theorem save_eq_ok (done : store.save disk paths = (.ok (), saved)) :
    ∃ between,
      Jsonl.replace disk paths.features store.featureLines =
          (.ok (), between) ∧
        Jsonl.replace between paths.invocations store.recordLines =
          (.ok (), saved) := by
  unfold save at done
  split at done
  · cases done
  · rename_i between first
    split at done
    · cases done
    · rename_i last second
      cases done
      exact ⟨between, first, second⟩

/-- Saving touches nothing else, even if it fails half way. -/
theorem confined_save (store : Store) (disk : Disk) (paths : DataPaths) :
    disk.Confined (store.save disk paths).2 paths.touched := by
  have first :=
    Jsonl.confined_replace disk paths.features store.featureLines 0
  unfold save
  split
  · rename_i failed between replaced
    rw [replaced] at first
    exact first.mono (by simp [DataPaths.touched])
  · rename_i done between replaced
    rw [replaced] at first
    have second :=
      Jsonl.confined_replace between paths.invocations store.recordLines 0
    have whole := first.trans second
    split
    · rename_i failed final again
      rw [again] at whole
      exact whole
    · rename_i done final again
      rw [again] at whole
      exact whole

theorem confined_of_save (done : store.save disk paths = (.ok (), saved)) :
    disk.Confined saved paths.touched := by
  have confined := confined_save store disk paths
  rw [done] at confined
  exact confined

/-- The ledger comes last, so its text is what is found in its place. -/
theorem read_invocations_of_save
    (done : store.save disk paths = (.ok (), saved)) :
    saved.read paths.invocations = .ok store.recordText := by
  rcases save_eq_ok done with ⟨between, -, second⟩
  rcases Jsonl.confined_of_replace second with ⟨bytes, made, there, -⟩
  rw [content_recordLines, Except.ok.injEq] at made
  rw [there, made]

/-- A save that succeeds leaves both texts behind. -/
theorem texts_of_save
    (done : store.save disk paths = (.ok (), saved))
    (separate : paths.Separate disk) :
    saved.read paths.features = .ok store.featureText ∧
      saved.read paths.invocations = .ok store.recordText := by
  rcases save_eq_ok done with ⟨between, first, second⟩
  rcases Jsonl.confined_of_replace first with
    ⟨bytes, made, here, earlier⟩
  rcases Jsonl.confined_of_replace second with ⟨-, -, -, later⟩
  rw [content_featureLines, Except.ok.injEq] at made
  subst made
  refine ⟨(later.read_iff ?_).mpr here, read_invocations_of_save done⟩
  simp only [List.mem_cons, List.not_mem_nil, or_false, forall_eq_or_imp,
    forall_eq]
  exact
    ⟨earlier.apart_iff.mpr separate.temporary,
      earlier.apart_iff.mpr separate.files⟩

/-- After saving, both files hold their texts unless the second one came in the way of the first. -/
theorem read_of_save
    (done : store.save disk paths = (.ok (), saved))
    (apart : saved.locate paths.features ≠ saved.locate paths.invocations)
    (aside :
      saved.locate paths.features ≠
        saved.locate (Path.temporary paths.invocations)) :
    saved.read paths.features = .ok store.featureText ∧
      saved.read paths.invocations = .ok store.recordText := by
  have confined := confined_of_save done
  exact
    texts_of_save done
      ⟨confined.apart_iff.mp (Disk.apart_of_ne apart),
        confined.apart_iff.mp (Disk.apart_of_ne aside)⟩

end Save

/-! ## Loading -/

theorem readData_written
    {α : Type} {reader : Json.Reader α} {form : α → Json.Value}
    {records : List α} {disk : Disk} {path : String}
    (stand :
      ∀ record ∈ records, Jsonl.StandsFor reader (form record) record)
    (found :
      disk.read path =
        .ok (records.flatMap fun record => Jsonl.lineOf (form record))) :
    readData disk path reader = .ok ⟨records, []⟩ := by
  rw [readData, Jsonl.readFrom, found]
  simp only [Jsonl.read_written stand]

/-- Loading the texts of a store takes what the store exports. -/
theorem load_of_texts
    {store : Store} {disk : Disk} {paths : DataPaths}
    (features : disk.read paths.features = .ok store.featureText)
    (records : disk.read paths.invocations = .ok store.recordText) :
    load disk paths =
      .ok (ofReadings ⟨store.features, []⟩ ⟨store.records, []⟩) := by
  have first :
      readData disk paths.features Feature.reader =
        .ok ⟨store.features, []⟩ :=
    readData_written (fun feature _ => feature.standsFor) features
  have second :
      readData disk paths.invocations InvocationRecord.reader =
        .ok ⟨store.records, []⟩ :=
    readData_written (fun record _ => record.standsFor) records
  rw [load, first, second]
  rfl

/-- What was saved is loaded without a warning. -/
theorem load_of_save
    {store : Store} {disk saved : Disk} {paths : DataPaths}
    (sound : store.Sound) (done : store.save disk paths = (.ok (), saved))
    (separate : paths.Separate disk) :
    ∃ loading,
      load saved paths = .ok loading ∧
        loading.warnings = [] ∧ loading.store.Agrees store := by
  rcases texts_of_save done separate with ⟨features, records⟩
  rcases ofReadings_exported sound with ⟨silent, agrees⟩
  exact ⟨_, load_of_texts features records, silent, agrees⟩

/-! ## Saving again -/

/-- Stores that say the same have the same texts. -/
theorem Agrees.texts_eq
    {store other : Store} (agrees : store.Agrees other)
    (sound : store.Sound) (otherSound : other.Sound) :
    store.featureText = other.featureText ∧
      store.recordText = other.recordText := by
  have records := records_eq_of_ledgers sound otherSound agrees.ledgers
  rw [featureText, recordText, agrees.features, records]
  exact ⟨rfl, rfl⟩

/--
A store that came about by any operations is loaded from the texts that it is
saved as, without a warning, and the loaded store is saved as the same texts.
-/
theorem load_save_run (operations : List Operation) :
    ∃ features records,
      Jsonl.content (run operations).featureLines = .ok features ∧
        Jsonl.content (run operations).recordLines = .ok records ∧
          (∀ disk paths saved,
            (run operations).save disk paths = (.ok (), saved) →
              saved.locate paths.features ≠
                  saved.locate paths.invocations →
                saved.locate paths.features ≠
                    saved.locate (Path.temporary paths.invocations) →
                  saved.read paths.features = .ok features ∧
                    saved.read paths.invocations = .ok records) ∧
            ∀ disk paths,
              disk.read paths.features = .ok features →
                disk.read paths.invocations = .ok records →
                  ∃ loading,
                    load disk paths = .ok loading ∧
                      loading.warnings = [] ∧
                        loading.store.Agrees (run operations) ∧
                          Jsonl.content loading.store.featureLines =
                              .ok features ∧
                            Jsonl.content loading.store.recordLines =
                              .ok records := by
  have sound := sound_run operations
  refine
    ⟨(run operations).featureText, (run operations).recordText,
      content_featureLines _, content_recordLines _, ?_, ?_⟩
  · intro disk paths saved done apart aside
    exact read_of_save done apart aside
  · intro disk paths features records
    have loaded := load_of_texts features records
    rcases ofReadings_exported sound with ⟨silent, agrees⟩
    rcases agrees.texts_eq (sound_load loaded) sound with ⟨first, second⟩
    refine ⟨_, loaded, silent, agrees, ?_, ?_⟩
    · rw [content_featureLines, first]
    · rw [content_recordLines, second]

/-! ### A store with a line break in it -/

/-- A feature, an entry without callees that names a line break, and a record that is rejected. -/
def brokenName : List Operation :=
  [.upsert ⟨⟨"Shop", "", "Pay", "1"⟩, ["pay\r\n"]⟩,
    .record ⟨"Shop", "1", "pay\r\n", []⟩,
    .recordInvocations "Shop" "1" "pay" [" "]]

/-- Saved on an empty disk, such a store is loaded again. -/
theorem load_save_run_of_brokenName :
    ∃ saved loading,
      (run brokenName).save .empty ⟨"features", "ledger"⟩ = (.ok (), saved) ∧
        load saved ⟨"features", "ledger"⟩ = .ok loading ∧
          loading.warnings = [] ∧
            loading.store.features =
              [⟨⟨"Shop", "", "Pay", "1"⟩, ["pay\r\n"]⟩] ∧
            (loading.store.ledger ⟨"Shop", "1"⟩).get? "pay\r\n" = some [] := by
  rcases load_save_run brokenName with
    ⟨features, records, first, second, written, restored⟩
  have done :
      (run brokenName).save .empty ⟨"features", "ledger"⟩ =
        (.ok (),
          { nodes :=
              ⟨[(["features"], .file features),
                (["ledger"], .file records)]⟩ }) := by
    unfold save Jsonl.replace Jsonl.fill
    rw [first, second]
    rfl
  have apart :
      (.ok ["features"] : Except FileError Location) ≠ .ok ["ledger"] := by
    decide
  have aside :
      (.ok ["features"] : Except FileError Location) ≠
        .ok ["ledger.tmp"] := by
    decide
  rcases written _ _ _ done apart aside with ⟨here, there⟩
  rcases restored _ _ here there with ⟨loading, loaded, silent, agrees, -⟩
  refine ⟨_, loading, done, loaded, silent, ?_, ?_⟩
  · exact agrees.features.trans (by decide)
  · exact (agrees.ledgers _ _).trans (by decide)

end Store

end FeatureAtlas
