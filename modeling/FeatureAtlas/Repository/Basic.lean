import FeatureAtlas.Encoding.Configuration
import FeatureAtlas.Query.Service

/-!
# Repositories

A repository is a directory with a subdirectory for its configuration and,
unless that says otherwise, its data files. It is looked for from a working
directory upwards.
-/

namespace FeatureAtlas

/-- An opened repository: its root, what its files hold, and what was passed over in them. -/
structure Repository where
  root : String
  configuration : Configuration
  store : Store
  warnings : List LoadWarning
deriving DecidableEq, Repr

namespace Repository

/-! ## Places -/

def directory (base : String) : String :=
  Path.join base ".trellis"

def configurationPath (base : String) : String :=
  Path.join (directory base) "config.yaml"

/-- Where the data files of a new repository are. -/
def newPaths (base : String) : DataPaths where
  features := Path.join (directory base) "features.jsonl"
  invocations := Path.join (directory base) "invocations.jsonl"

/-- Whether a directory is the root of a repository. -/
def isRoot (disk : Disk) (base : String) : Bool :=
  disk.has (directory base)

/-! ## Creation -/

/-- The content of the file that names what is not to be tracked. -/
def ignoreText : String :=
  "# Trellis temp files left behind by interrupted writes\n" ++
    "# The features and invocations files should be tracked\n" ++ "*.tmp\n"

/-- The files of a new repository in the order in which they are written. -/
def newFiles (base : String) : List (String × String) :=
  [(configurationPath base, Configuration.standard.text), ((newPaths base).features, ""),
    ((newPaths base).invocations, ""), (Path.join (directory base) ".gitignore", ignoreText)]

/-- Write files one after the other up to the first that cannot be written. -/
def writeFiles : List (String × String) → Disk → Except FileError Unit × Disk
  | [], disk => (.ok (), disk)
  | (path, text) :: files, disk =>
    match disk.write path (Utf8.ofText text) with
    | .error error => (.error error, disk)
    | .ok disk => writeFiles files disk

/-- Make a directory the root of a repository; the disk after that, whatever the outcome. -/
def create (disk : Disk) (base : String) : Except Error Unit × Disk :=
  match disk.exists? (directory base) with
  | .error error => (.error (.file error), disk)
  | .ok true => (.error (.alreadyInitialized (directory base)), disk)
  | .ok false =>
    match disk.makeDirectory (directory base) with
    | .error error => (.error (.file error), disk)
    | .ok disk =>
      let (result, disk) := writeFiles (newFiles base) disk
      (result.mapError .file, disk)

/-! ## Search -/

/-- How many directories above the working directory are looked at. -/
def greatestClimb : Nat := 256

/-- A path and at most so many above it, the nearest first. -/
def climb : Nat → String → List String
  | 0, path => [path]
  | more + 1, path =>
    match Path.parent? path with
    | none => [path]
    | some parent => path :: climb more parent

/-- The nearest root of a repository from a directory upwards. -/
def findRoot (disk : Disk) (start : String) : Option String :=
  (climb greatestClimb start).find? (isRoot disk)

/-! ## Opening and saving -/

def loadConfiguration (disk : Disk) (path : String)
    (decode : Configuration.Decoder := Configuration.ofText?) : Except Error Configuration :=
  match disk.readText path with
  | .error error => .error (.file error)
  | .ok text =>
    match decode text with
    | none => .error .invalidConfiguration
    | some configuration => .ok configuration

/-- Open the repository that holds a directory. -/
def openFrom (disk : Disk) (start : String)
    (decode : Configuration.Decoder := Configuration.ofText?) : Except Error Repository :=
  match findRoot disk start with
  | none => .error .notInitialized
  | some root => do
    let configuration ← loadConfiguration disk (configurationPath root) decode
    let loading ← Store.load disk (configuration.paths root)
    .ok ⟨root, configuration, loading.store, loading.warnings⟩

def paths (repository : Repository) : DataPaths :=
  repository.configuration.paths repository.root

def service (repository : Repository) : Service :=
  ⟨repository.store.backend, repository.configuration.settings⟩

/-- Write the store back to its files; the disk after that, whatever the outcome. -/
def save (repository : Repository) (disk : Disk) : Except Error Unit × Disk :=
  repository.store.save disk repository.paths

end Repository

end FeatureAtlas
