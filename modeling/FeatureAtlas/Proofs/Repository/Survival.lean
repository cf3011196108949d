import FeatureAtlas.Proofs.Repository.Reopening
import FeatureAtlas.Proofs.Store.SharedFile

/-!
# What survives a save

A configuration may name any paths, and nothing checks that they go together.
Whatever it names, a save that succeeds leaves the repository to be found, and
unless a data file is the configuration itself, it can be opened again with
the whole ledger.  The features come back too if their file is neither that of
the ledger nor the temporary file of the ledger; otherwise all of them are
lost.
-/

namespace FeatureAtlas.Repository

/--
A repository was opened, on whatever disk, and operations have followed; its
configuration is still in place.
-/
structure InUse
    (decode : Configuration.Decoder) (repository : Repository)
    (disk : Disk) : Prop where
  opened :
    ∃ earlier start original, ∃ operations : List Store.Operation,
      openFrom earlier start decode = .ok original ∧
        repository =
          { original with
            store := operations.foldl Store.after original.store }
  configured :
    loadConfiguration disk (configurationPath repository.root) decode =
      .ok repository.configuration

/-- Neither data file is the configuration. -/
structure SparesConfiguration
    (repository : Repository) (disk : Disk) : Prop where
  features :
    disk.Apart (configurationPath repository.root) repository.paths.features
  invocations :
    disk.Apart (configurationPath repository.root)
      repository.paths.invocations

/-- What there is of a repository on a disk that it was saved to. -/
structure Survives
    (decode : Configuration.Decoder) (repository : Repository)
    (disk saved : Disk) : Prop where
  /-- The root is found from itself. -/
  rooted : findRoot saved repository.root = some repository.root
  /-- It is found from below, unless a data file shadows it. -/
  climbed :
    ∀ start,
      findRoot disk start = some repository.root →
        repository.Unshadowed disk start →
          findRoot saved start = some repository.root
  /-- From wherever it is found, it is opened with its ledger, and with its features or none. -/
  reopened :
    repository.SparesConfiguration disk →
      ∀ start,
        findRoot saved start = some repository.root →
          ∃ store warnings,
            openFrom saved start decode =
                .ok
                  ⟨repository.root, repository.configuration, store,
                    warnings⟩ ∧
              (∀ scope signature,
                (store.ledger scope).get? signature =
                  (repository.store.ledger scope).get? signature) ∧
                (repository.paths.Separate disk →
                  store.features = repository.store.features ∧
                    warnings = []) ∧
                  (¬repository.paths.Separate disk → store.features = [])

section Saved

variable {decode : Configuration.Decoder} {repository : Repository}
  {disk saved : Disk}

theorem InUse.sound (inUse : InUse decode repository disk) :
    repository.store.Sound := by
  rcases inUse.opened with ⟨earlier, start, original, operations, opened, rfl⟩
  refine
    List.foldlRecOn _ _ (Store.sound_load (openFrom_eq_ok opened).2.2) ?_
  intro store sound operation _
  exact sound.after operation

/-- A repository whose data files are its own comes back whole. -/
theorem reopened_of_separate
    (inUse : InUse decode repository disk)
    (done : repository.save disk = (.ok (), saved))
    (spared : repository.SparesConfiguration disk)
    (separate : repository.paths.Separate disk) {start : String}
    (found : findRoot saved start = some repository.root) :
    ∃ store,
      openFrom saved start decode =
          .ok ⟨repository.root, repository.configuration, store, []⟩ ∧
        store.Agrees repository.store :=
  openFrom_of_save inUse.sound inUse.configured
    ⟨separate, spared.features, spared.invocations⟩ done found

/-- A repository whose feature file is taken by the ledger comes back with the ledger alone. -/
theorem reopened_of_taken
    (inUse : InUse decode repository disk)
    (done : repository.save disk = (.ok (), saved))
    (spared : repository.SparesConfiguration disk)
    (taken : ¬repository.paths.Separate disk) {start : String}
    (found : findRoot saved start = some repository.root) :
    ∃ store warnings,
      openFrom saved start decode =
          .ok
            ⟨repository.root, repository.configuration, store, warnings⟩ ∧
        store.features = [] ∧
          ∀ scope signature,
            (store.ledger scope).get? signature =
              (repository.store.ledger scope).get? signature := by
  have again :=
    loadConfiguration_of_save inUse.configured done spared.features
      spared.invocations
  rcases Store.load_of_save_taken inUse.sound done taken with
    ⟨loading, loaded, bare, ledgers⟩
  exact ⟨_, _, openFrom_of_parts found again loaded, bare, ledgers⟩

/--
A repository in use survives every save that succeeds, whatever paths it is
configured with and however its configuration is decoded.
-/
theorem survives_save
    (inUse : InUse decode repository disk)
    (done : repository.save disk = (.ok (), saved)) :
    Survives decode repository disk saved where
  rooted := findRoot_root_of_save inUse.configured done
  climbed := by
    intro start found unshadowed
    exact findRoot_of_save inUse.configured done found unshadowed
  reopened := by
    intro spared start found
    by_cases separate : repository.paths.Separate disk
    · rcases reopened_of_separate inUse done spared separate found with
        ⟨store, opened, agrees⟩
      exact
        ⟨store, [], opened, agrees.ledgers, fun _ => ⟨agrees.features, rfl⟩,
          fun taken => absurd separate taken⟩
    · rcases reopened_of_taken inUse done spared separate found with
        ⟨store, warnings, opened, bare, ledgers⟩
      exact
        ⟨store, warnings, opened, ledgers,
          fun apart => absurd apart separate, fun _ => bare⟩

end Saved

/-! ### A shop and its paths -/

/-- A feature of a shop. -/
def payment : Feature :=
  ⟨⟨"Shop", "", "Pay", "1"⟩, ["pay"]⟩

/-- A repository with a feature in `data.tmp`, which is configured with any two paths. -/
def stock (features invocations : String) : Disk where
  nodes :=
    ⟨[([".trellis"], .directory), (["floor"], .directory),
      ([".trellis", "config.yaml"],
        .file
          (Utf8.ofText
            ("features-file: " ++ features ++ "\ninvocations-file: " ++
              invocations ++ "\n"))),
      (["data.tmp"], .file (Jsonl.lineOf payment.toValue))]⟩

/-- What the stock is opened as, with one more record. -/
def noted : Repository where
  root := ""
  configuration := ⟨"data.tmp", "floor/ledger", .all, .firstWins⟩
  store :=
    [.record ⟨"Shop", "1", "pay", ["charge"]⟩].foldl Store.after
      (Store.empty.put payment).2
  warnings := []

/-- With a file for each, the feature and the record are there again. -/
theorem survives_save_of_stock :
    InUse Configuration.ofText? noted (stock "data.tmp" "floor/ledger") ∧
      ∃ saved store,
        noted.save (stock "data.tmp" "floor/ledger") = (.ok (), saved) ∧
          openFrom saved "floor" =
              .ok ⟨"", noted.configuration, store, []⟩ ∧
            store.features = [payment] ∧
              (store.ledger ⟨"Shop", "1"⟩).get? "pay" = some ["charge"] := by
  have opened :
      openFrom (stock "data.tmp" "floor/ledger") "floor" =
        .ok { noted with store := (Store.empty.put payment).2 } := by
    decide +kernel
  have inUse : InUse Configuration.ofText? noted (stock "data.tmp" "floor/ledger") :=
    ⟨⟨_, _, _, _, opened, rfl⟩, (openFrom_eq_ok opened).2.1⟩
  have accepted :
      (noted.save (stock "data.tmp" "floor/ledger")).1 = .ok () := by
    decide +kernel
  have done := Prod.ext accepted (Eq.refl _)
  have apart {path other : String} :=
    @Disk.apart_of_ne (stock "data.tmp" "floor/ledger") path other
  have separate : noted.paths.Separate (stock "data.tmp" "floor/ledger") :=
    ⟨apart (by decide +kernel), apart (by decide +kernel)⟩
  have spared : noted.SparesConfiguration (stock "data.tmp" "floor/ledger") :=
    ⟨apart (by decide +kernel), apart (by decide +kernel)⟩
  have unshadowed : noted.Unshadowed (stock "data.tmp" "floor/ledger") "floor" := by
    have passes :
        passed (stock "data.tmp" "floor/ledger") "floor" = ["floor"] := by
      decide +kernel
    intro base member
    rw [passes, List.mem_singleton] at member
    subst member
    exact ⟨apart (by decide +kernel), apart (by decide +kernel)⟩
  have survives := survives_save inUse done
  have found := survives.climbed "floor" (openFrom_eq_ok opened).1 unshadowed
  rcases survives.reopened spared "floor" found with
    ⟨store, warnings, again, ledgers, whole, -⟩
  rcases whole separate with ⟨features, silent⟩
  subst silent
  refine ⟨inUse, _, store, done, again, ?_, ?_⟩
  · exact features.trans (by decide)
  · exact (ledgers _ _).trans (by decide)

/-- The features that a repository is opened with before it is saved and after. -/
def featuresAround (disk : Disk) (start : String) :
    Except Error (List Feature × Except Error (List Feature)) := do
  let opened ← openFrom disk start
  let (outcome, saved) := opened.save disk
  outcome
  .ok (opened.store.features, (openFrom saved start).map (·.store.features))

/--
The feature is lost if its file is that of the ledger or the temporary file of
the ledger.  Nothing can be opened again if a data file is the configuration,
or if it shadows the directory of the repository.
-/
theorem features_may_be_lost :
    featuresAround (stock "data.tmp" "data.tmp") "" =
        .ok ([payment], .ok []) ∧
      featuresAround (stock "data.tmp" "data") "" =
          .ok ([payment], .ok []) ∧
        featuresAround (stock ".trellis/config.yaml" "ledger") "" =
            .ok ([], .error .invalidConfiguration) ∧
          featuresAround (stock "data.tmp" "floor/.trellis") "floor" =
            .ok ([payment], .error (.file .notDirectory)) := by
  decide +kernel

end FeatureAtlas.Repository
