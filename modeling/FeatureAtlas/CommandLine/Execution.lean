import FeatureAtlas.CommandLine.Command
import FeatureAtlas.Encoding.Summary
import FeatureAtlas.Output.GraphJson
import FeatureAtlas.Output.Listing
import FeatureAtlas.Output.Tree
import FeatureAtlas.Repository.Basic
import FeatureAtlas.Store.ReportFile

/-!
# Executing commands

A command gives its output, an error if it fails, and the disk after it. Output
that came before the error stays. Queries answer from an opened repository and
leave the disk alone.
-/

namespace FeatureAtlas.CommandLine

open Json (Value)
open Output

/-- Where a command runs. -/
structure Context where
  directory : String
  environment : Environment
  isTerminal : Bool
  /-- How configurations are decoded. -/
  decode : Configuration.Decoder := Configuration.ofText?

def Context.appearance (context : Context) : Appearance :=
  (Appearance.ofEnvironment context.environment).onDevice context.isTerminal

/-- The repository that holds the working directory. -/
def Context.repository (context : Context) (disk : Disk) : Except Error Repository :=
  Repository.openFrom disk context.directory context.decode

/-- What comes of a command. -/
structure Outcome where
  output : String
  result : Except Error Unit
  disk : Disk

/-! ## Queries -/

def rendered (json : Bool) (value : Value) (text : String) : String :=
  if json then value.indented ++ "\n" else text

/-- What is known about a repository as JSON. -/
def infoValue (repository : Repository) (conflicts : List Conflict) : Value :=
  Value.sorted <| .object
    [("features_file", .text repository.paths.features),
      ("invocations_file", .text repository.paths.invocations),
      ("root_scope", repository.configuration.extent.toValue),
      ("signature_conflicts_policy", .text repository.configuration.policy.name),
      ("features", .count repository.store.featureCount),
      ("releases", .count repository.store.scopes.length),
      ("ledger_entries", .count repository.store.invocationCount),
      ("signature_conflicts", conflictsValue conflicts),
      ("load_warnings", .texts (repository.warnings.map (·.message)))]

/-- Lines under a warning, if there are any. -/
def warningSection (appearance : Appearance) (heading : String) (lines : List String) :
    List String :=
  if lines.isEmpty then []
  else
    "" :: Style.warning.paint appearance (toString lines.length ++ heading) :: lines

/-- What is known about a repository as lines. -/
def infoLines (appearance : Appearance) (repository : Repository) (conflicts : List Conflict) :
    List String :=
  let store := repository.store
  ["Trellis Repository Information", "==============================", "",
    "Features file:    " ++ repository.paths.features,
    "Invocations file: " ++ repository.paths.invocations,
    "Root scope:       " ++ repository.configuration.extent.label, "",
    toString store.featureCount ++ " features in " ++ toString store.scopes.length ++
      " release(s), " ++ toString store.invocationCount ++ " ledger entries"] ++
    warningSection appearance " signature conflict(s):" (conflictLines appearance conflicts) ++
    warningSection appearance " record(s) skipped while loading:"
      (repository.warnings.map fun warning => "  " ++ warning.message)

def answerInfo (json : Bool) (appearance : Appearance) (repository : Repository) :
    Except Error String := do
  let conflicts ← repository.service.conflicts .all
  .ok <| rendered json (infoValue repository conflicts)
    (unlines (infoLines appearance repository conflicts))

/-- The answer to `roots`; without a filter the extent of the configuration counts. -/
def answerRoots (json : Bool) (appearance : Appearance) (repository : Repository)
    (filter : Filter) : Except Error String := do
  let forest ←
    if filter.isSet then repository.service.forest filter.extent
    else repository.service.defaultForest
  let text :=
    if forest.roots.isEmpty then "No features found.\n" else forestText appearance forest
  .ok (rendered json (forestValue forest) text)

def answerGraph (json : Bool) (appearance : Appearance) (repository : Repository)
    (target : Target) : Except Error String := do
  let graph ← repository.service.graph target.scope target.title
  .ok (rendered json (graphValue graph) (graphText appearance graph))

def answerDeps (json : Bool) (appearance : Appearance) (repository : Repository)
    (target : Target) (reverse : Bool) : Except Error String := do
  let features ←
    if reverse then repository.service.dependents target.scope target.title
    else repository.service.dependencies target.scope target.title
  let heading := if reverse then "is used by" else "depends on"
  .ok <| rendered json (featuresValue features)
    (unlines (featureLines appearance target.label heading features))

def answerCycles (json : Bool) (appearance : Appearance) (repository : Repository)
    (filter : Filter) : Except Error String := do
  let cycles ← repository.service.cycles filter.extent
  .ok (rendered json (cyclesValue cycles) (unlines (cycleLines appearance cycles)))

/-- The outcome of a query on the repository that holds the working directory. -/
def query (disk : Disk) (context : Context)
    (answer : Appearance → Repository → Except Error String) : Outcome :=
  match context.repository disk >>= answer context.appearance with
  | .ok output => ⟨output, .ok (), disk⟩
  | .error error => ⟨"", .error error, disk⟩

/-! ## Changes -/

def initLines (base : String) : List String :=
  ["Initialized trellis in " ++ Repository.directory base,
    "  Config:      " ++ Repository.configurationPath base,
    "  Features:    " ++ (Repository.newPaths base).features,
    "  Invocations: " ++ (Repository.newPaths base).invocations]

def runInit (disk : Disk) (context : Context) (quiet : Bool) : Outcome :=
  let spoken (lines : List String) : String := if quiet then "" else unlines lines
  let first := "Initializing trellis repository..."
  match Repository.create disk context.directory with
  | (.error error, disk) => ⟨spoken [first], .error error, disk⟩
  | (.ok _, disk) => ⟨spoken (first :: initLines context.directory), .ok (), disk⟩

def ingestText (appearance : Appearance) (summary : IngestSummary) : String :=
  Style.success.paint appearance "Recorded" ++ " " ++ toString summary.entries ++
    " ledger entries for " ++ summary.product ++ "@" ++ summary.version ++ "\n"

/-- The repository with a report recorded, which is not saved yet. -/
def ingested (disk : Disk) (context : Context) (path : String) :
    Except Error (IngestSummary × Repository) := do
  let repository ← context.repository disk
  let report ← Report.load disk (Path.join context.directory path)
  match repository.store.ingest report with
  | (.error error, _) => .error error
  | (.ok summary, store) => .ok (summary, { repository with store })

def runIngest (json : Bool) (disk : Disk) (context : Context) (path : String) : Outcome :=
  match ingested disk context path with
  | .error error => ⟨"", .error error, disk⟩
  | .ok (summary, repository) =>
    match repository.save disk with
    | (.error error, disk) => ⟨"", .error error, disk⟩
    | (.ok _, disk) =>
      ⟨rendered json summary.toValue (ingestText context.appearance summary), .ok (), disk⟩

/-! ## Requests -/

/-- What is shown when no command is given. -/
def greeting : List String :=
  ["Trellis feature dependency graphs", "Use --help for more information"]

def Request.run (request : Request) (disk : Disk) (context : Context) : Outcome :=
  let json := request.json
  match request.command with
  | none => ⟨unlines greeting, .ok (), disk⟩
  | some (.init quiet) => runInit disk context quiet
  | some .info => query disk context (answerInfo json)
  | some (.roots filter) =>
    query disk context fun appearance repository => answerRoots json appearance repository filter
  | some (.graph target) =>
    query disk context fun appearance repository => answerGraph json appearance repository target
  | some (.deps target reverse) =>
    query disk context fun appearance repository =>
      answerDeps json appearance repository target reverse
  | some (.cycles filter) =>
    query disk context fun appearance repository => answerCycles json appearance repository filter
  | some (.ingest path) => runIngest json disk context path

end FeatureAtlas.CommandLine
