import FeatureAtlas.Proofs.Repository.Places
import FeatureAtlas.Proofs.Store.SaveLoad

/-!
# Reopening a repository

Saving keeps the directory and the configuration of a repository in place, so
the repository is found and opened again, and where its files do not get in
each other's way it holds what was saved.  Only a data file under the name of
the directory of a repository could make a search from below stop too early.
-/

namespace FeatureAtlas

/-- A name that does not end like that of a temporary file is not touched by a save. -/
theorem Store.apart_of_save
    {store : Store} {disk saved : Disk} {paths : DataPaths}
    (done : store.save disk paths = (.ok (), saved))
    {path name : String} {before : List String}
    (split : Path.parts path = before ++ [name])
    (busy : Path.isIdle name = false) (down : name ≠ "..")
    (differ : name.toList.getLast? ≠ some 'p')
    (features : disk.Apart path paths.features)
    (invocations : disk.Apart path paths.invocations) :
    ∀ other ∈ paths.touched, disk.Apart path other := by
  rcases save_eq_ok done with ⟨between, first, second⟩
  rcases Jsonl.confined_of_replace first with ⟨-, -, -, confined⟩
  have beside :=
    Disk.apart_temporary_of_replace second split busy down differ
  simp only [DataPaths.touched, List.mem_cons, List.not_mem_nil, or_false,
    forall_eq_or_imp, forall_eq]
  exact
    ⟨Disk.apart_temporary_of_replace first split busy down differ, features,
      confined.apart_iff.mp beside, invocations⟩

namespace Repository

/-! ## Named places -/

theorem parts_directory (base : String) :
    ∃ before, Path.parts (directory base) = before ++ [".trellis"] :=
  Path.parts_join base (by decide)

theorem directory_ne_empty (base : String) : directory base ≠ "" := by
  intro empty
  rcases parts_directory base with ⟨before, split⟩
  have whole : [] ++ [""] = before ++ [".trellis"] :=
    (congrArg Path.parts empty).symm.trans split
  exact absurd (List.append_inj' whole rfl).2 (by decide)

theorem parts_configurationPath (base : String) :
    Path.parts (configurationPath base) =
      Path.parts (directory base) ++ ["config.yaml"] := by
  apply Path.parts_join_of_solid (by decide) (directory_ne_empty base)
  have plain : Path.separator ∉ ".trellis".toList := by decide
  rcases Path.join_of_name base plain with ⟨start, joined, -⟩
  rw [directory, joined, String.toList_append,
    List.getLast?_append_of_ne_nil _ (by decide)]
  decide

/-! ## Opening -/

section Opening

variable {decode : Configuration.Decoder} {disk later : Disk}
  {touched : List String}

theorem openFrom_eq_ok
    {start : String} {repository : Repository}
    (opened : openFrom disk start decode = .ok repository) :
    findRoot disk start = some repository.root ∧
      loadConfiguration disk (configurationPath repository.root) decode =
          .ok repository.configuration ∧
        Store.load disk repository.paths =
          .ok ⟨repository.store, repository.warnings⟩ := by
  rw [openFrom] at opened
  split at opened
  · cases opened
  · rename_i root found
    cases configured :
        loadConfiguration disk (configurationPath root) decode with
    | error problem =>
        rw [configured] at opened
        cases opened
    | ok configuration =>
        cases loaded : Store.load disk (configuration.paths root) with
        | error problem =>
            simp only [bind, Except.bind, configured, loaded] at opened
            cases opened
        | ok loading =>
            simp only [bind, Except.bind, configured, loaded,
              Except.ok.injEq] at opened
            subst opened
            exact ⟨found, configured, loaded⟩

/-- A repository is opened from its root, its configuration and its store. -/
theorem openFrom_of_parts
    {start root : String} {configuration : Configuration}
    {loading : Store.Loading} (found : findRoot disk start = some root)
    (configured :
      loadConfiguration disk (configurationPath root) decode =
        .ok configuration)
    (loaded : Store.load disk (configuration.paths root) = .ok loading) :
    openFrom disk start decode =
      .ok ⟨root, configuration, loading.store, loading.warnings⟩ := by
  rw [openFrom, found]
  simp only [bind, Except.bind, configured, loaded]

theorem exists_read_of_loadConfiguration
    {path : String} {configuration : Configuration}
    (configured : loadConfiguration disk path decode = .ok configuration) :
    ∃ content, disk.read path = .ok content := by
  rw [loadConfiguration, Disk.readText] at configured
  cases found : disk.read path with
  | error problem =>
      rw [found] at configured
      cases configured
  | ok content => exact ⟨content, rfl⟩

/-- A configuration that is not touched is loaded again. -/
theorem loadConfiguration_of_confined
    (confined : disk.Confined later touched) {path : String}
    (aside : ∀ other ∈ touched, disk.Apart path other)
    {configuration : Configuration}
    (configured : loadConfiguration disk path decode = .ok configuration) :
    loadConfiguration later path decode = .ok configuration := by
  rcases exists_read_of_loadConfiguration configured with ⟨content, found⟩
  have again : later.read path = disk.read path :=
    ((confined.read_iff aside).mpr found).trans found.symm
  rw [← configured, loadConfiguration, loadConfiguration, Disk.readText,
    Disk.readText, again]

/-- The directory of a configured repository stays where it is. -/
theorem isRoot_of_confined
    (confined : disk.Confined later touched) {root : String}
    {configuration : Configuration}
    (configured :
      loadConfiguration disk (configurationPath root) decode =
        .ok configuration) :
    isRoot later root = true := by
  rcases exists_read_of_loadConfiguration configured with ⟨content, found⟩
  rcases Disk.read_eq_ok_iff.mp found with ⟨-, location, located, -⟩
  rcases Disk.exists_directory_of_locate (parts_configurationPath root)
      (by decide) (by decide) located with
    ⟨place, walked, here, -⟩
  have led : disk.locate (directory root) = .ok place := by
    rw [Disk.locate, if_neg (mt String.isEmpty_iff.mp (directory_ne_empty root))]
    exact walked
  have kept := confined.keeps place (Disk.reaches_of_locate led) here
  rw [isRoot, Disk.has_eq_true_iff]
  exact ⟨place, confined.locate_iff.mpr led, by rw [kept, Option.isSome_some]⟩

/-- Nothing comes to be where no touched path leads. -/
theorem isRoot_eq_of_confined
    (confined : disk.Confined later touched) {base : String}
    (aside : ∀ other ∈ touched, disk.Apart (directory base) other) :
    isRoot later base = isRoot disk base := by
  rw [isRoot, isRoot, Bool.eq_iff_iff, Disk.has_eq_true_iff,
    Disk.has_eq_true_iff]
  apply exists_congr
  intro location
  rw [confined.locate_iff]
  apply and_congr_right
  intro located
  rw [confined.node?_eq located aside]

end Opening

/-! ## Opening again -/

/--
The two data files of a repository are different files, neither is its
configuration, and the features are not kept in the temporary file of the
invocations.
-/
structure Separate (repository : Repository) (disk : Disk) : Prop where
  data : repository.paths.Separate disk
  features :
    disk.Apart (configurationPath repository.root) repository.paths.features
  invocations :
    disk.Apart (configurationPath repository.root)
      repository.paths.invocations

/-- The directories that the search for a root passes, from a directory upwards. -/
def passed (disk : Disk) (start : String) : List String :=
  (climb greatestClimb start).takeWhile fun base => !isRoot disk base

/-- No data file has the name by which a root is known, in a directory that the search passes. -/
def Unshadowed (repository : Repository) (disk : Disk) (start : String) : Prop :=
  ∀ base ∈ passed disk start,
    disk.Apart (directory base) repository.paths.features ∧
      disk.Apart (directory base) repository.paths.invocations

section Saved

variable {decode : Configuration.Decoder} {repository : Repository}
  {disk saved : Disk}

/-- The search from the root finds the root again. -/
theorem findRoot_root_of_save
    (configured :
      loadConfiguration disk (configurationPath repository.root) decode =
        .ok repository.configuration)
    (done : repository.save disk = (.ok (), saved)) :
    findRoot saved repository.root = some repository.root := by
  have confined : disk.Confined saved repository.paths.touched :=
    Store.confined_of_save done
  have rooted := isRoot_of_confined confined configured
  rw [findRoot, greatestClimb, climb]
  split
  · rw [List.find?_cons_of_pos rooted]
  · rw [List.find?_cons_of_pos rooted]

/-- The search from below finds the root again, unless a data file shadows it. -/
theorem findRoot_of_save
    (configured :
      loadConfiguration disk (configurationPath repository.root) decode =
        .ok repository.configuration)
    (done : repository.save disk = (.ok (), saved)) {start : String}
    (found : findRoot disk start = some repository.root)
    (unshadowed : repository.Unshadowed disk start) :
    findRoot saved start = some repository.root := by
  have confined : disk.Confined saved repository.paths.touched :=
    Store.confined_of_save done
  rw [findRoot, List.find?_eq_some_iff_append] at found ⊢
  rcases found with ⟨-, before, above, climbed, missing⟩
  refine ⟨isRoot_of_confined confined configured, before, above, climbed, ?_⟩
  intro base member
  have nearer : base ∈ passed disk start := by
    rw [passed, climbed, List.takeWhile_append_of_pos missing]
    exact List.mem_append_left _ member
  rcases unshadowed base nearer with ⟨features, invocations⟩
  rcases parts_directory base with ⟨start, split⟩
  have aside :=
    Store.apart_of_save done split (by decide) (by decide) (by decide)
      features invocations
  rw [isRoot_eq_of_confined confined aside]
  exact missing base member

/-- A configuration that is no data file is loaded again. -/
theorem loadConfiguration_of_save
    (configured :
      loadConfiguration disk (configurationPath repository.root) decode =
        .ok repository.configuration)
    (done : repository.save disk = (.ok (), saved))
    (features :
      disk.Apart (configurationPath repository.root)
        repository.paths.features)
    (invocations :
      disk.Apart (configurationPath repository.root)
        repository.paths.invocations) :
    loadConfiguration saved (configurationPath repository.root) decode =
      .ok repository.configuration := by
  have confined : disk.Confined saved repository.paths.touched :=
    Store.confined_of_save done
  have aside :=
    Store.apart_of_save done (parts_configurationPath repository.root)
      (by decide) (by decide) (by decide) features invocations
  exact loadConfiguration_of_confined confined aside configured

/-- A repository that is found after saving holds what was saved. -/
theorem openFrom_of_save
    (sound : repository.store.Sound)
    (configured :
      loadConfiguration disk (configurationPath repository.root) decode =
        .ok repository.configuration)
    (separate : repository.Separate disk)
    (done : repository.save disk = (.ok (), saved)) {start : String}
    (found : findRoot saved start = some repository.root) :
    ∃ store,
      openFrom saved start decode =
          .ok ⟨repository.root, repository.configuration, store, []⟩ ∧
        store.Agrees repository.store := by
  have again :=
    loadConfiguration_of_save configured done separate.features
      separate.invocations
  rcases Store.load_of_save sound done separate.data with
    ⟨loading, loaded, silent, agrees⟩
  have opened := openFrom_of_parts found again loaded
  rw [silent] at opened
  exact ⟨loading.store, opened, agrees⟩

end Saved

end Repository

end FeatureAtlas
