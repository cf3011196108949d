import FeatureAtlas.Encoding.Feature
import FeatureAtlas.Encoding.Ledger
import FeatureAtlas.Jsonl.Reading
import FeatureAtlas.Jsonl.Writing
import FeatureAtlas.Store.Basic

/-!
# The files of a store

A store is kept in two files of JSON lines: the features in catalog order, and
the ledger entries sorted. Loading goes on past lines and records that are no
good and warns of each of them; a missing file counts as an empty one.
-/

namespace FeatureAtlas

/-- Which file of a store. -/
inductive DataFile
  | features
  | invocations
deriving DecidableEq, Repr

def DataFile.label : DataFile → String
  | .features => "features"
  | .invocations => "invocations"

/-- What was passed over or superseded while a store was loaded. -/
inductive LoadWarning
  | malformedLine (file : DataFile) (warning : Jsonl.Warning)
  /-- Records are counted from one among those that could be decoded. -/
  | invalidRecord (file : DataFile) (number : Nat) (defect : Defect)
  | duplicateFeature (id : FeatureId)
deriving DecidableEq, Repr

def LoadWarning.message : LoadWarning → String
  | .malformedLine file warning =>
    file.label ++ " file, line " ++ toString warning.line ++ ": " ++ warning.reason
  | .invalidRecord file number defect =>
    file.label ++ " file, record " ++ toString number ++ ": " ++ defect.message
  | .duplicateFeature id => "duplicate feature " ++ id.label ++ "; later record kept"

/-- Where the two files of a store are. -/
structure DataPaths where
  features : String
  invocations : String
deriving DecidableEq, Repr

namespace Store

/-- A store that is being loaded, with the warnings so far. -/
structure Loading where
  store : Store
  warnings : List LoadWarning
deriving DecidableEq, Repr

/-- Take a decoded feature, which has an index among the decoded ones. -/
def takeFeature (loading : Loading) (entry : Feature × Nat) : Loading :=
  let (feature, index) := entry
  match feature.defect? with
  | some defect =>
    { loading with
      warnings := loading.warnings ++ [.invalidRecord .features (index + 1) defect] }
  | none =>
    match loading.store.put feature with
    | (true, store) => ⟨store, loading.warnings ++ [.duplicateFeature feature.id]⟩
    | (false, store) => ⟨store, loading.warnings⟩

/-- Take a decoded ledger record, which has an index among the decoded ones. -/
def takeRecord (loading : Loading) (entry : InvocationRecord × Nat) : Loading :=
  let (record, index) := entry
  match record.defect? with
  | some defect =>
    { loading with
      warnings := loading.warnings ++ [.invalidRecord .invocations (index + 1) defect] }
  | none => { loading with store := loading.store.enter record }

/-- The store that decoded lines make, with all warnings. -/
def ofReadings (features : Jsonl.Reading Feature)
    (records : Jsonl.Reading InvocationRecord) : Loading :=
  let start : Loading :=
    ⟨.empty, features.warnings.map (.malformedLine .features) ++
      records.warnings.map (.malformedLine .invocations)⟩
  records.records.zipIdx.foldl takeRecord (features.records.zipIdx.foldl takeFeature start)

/-- Read a data file; a missing one is empty. -/
def readData {α : Type} (disk : Disk) (path : String) (reader : Json.Reader α) :
    Except Error (Jsonl.Reading α) :=
  match Jsonl.readFrom disk path reader with
  | .ok reading => .ok reading
  | .error (.file .missing) => .ok .empty
  | .error error => .error (.dataFile error)

/-- Load a store from its two files. -/
def load (disk : Disk) (paths : DataPaths) : Except Error Loading := do
  let features ← readData disk paths.features Feature.reader
  let records ← readData disk paths.invocations InvocationRecord.reader
  .ok (ofReadings features records)

def featureLines (store : Store) : List Jsonl.Line :=
  store.features.map fun feature => .ok feature.toValue

def recordLines (store : Store) : List Jsonl.Line :=
  store.records.map fun record => .ok record.toValue

/--
Save a store to its two files, one after the other; the disk after that,
whatever the outcome.
-/
def save (store : Store) (disk : Disk) (paths : DataPaths) : Except Error Unit × Disk :=
  match Jsonl.replace disk paths.features store.featureLines with
  | (.error error, disk) => (.error (.dataFile error), disk)
  | (.ok _, disk) =>
    match Jsonl.replace disk paths.invocations store.recordLines with
    | (.error error, disk) => (.error (.dataFile error), disk)
    | (.ok _, disk) => (.ok (), disk)

end Store

end FeatureAtlas
