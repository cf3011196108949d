import FeatureAtlas.CommandLine.Execution

/-!
# The program

The files that a request may look at are taken over into a disk, the request is
carried out on it, and what has changed is written back.
-/

namespace FeatureAtlas.Program

open CommandLine

/-! ## Files -/

def pathOf (location : Location) : String :=
  "/" ++ "/".intercalate location

/-- The system's number for a path that is a directory. -/
def directoryCode : UInt32 := 21

/-- Take over the file or directory at a location, if there is one. -/
def takeNode (disk : Disk) (location : Location) : IO Disk := do
  try
    let content ← IO.FS.readBinFile (pathOf location)
    return disk.put location (.file content.toList)
  catch
    | .noFileOrDirectory _ _ _ => return disk
    | .inappropriateType _ code _ =>
      return if code = directoryCode then disk.put location .directory else disk
    | error => throw error

/-- Take over what is at a path, and the directories on the way to it. -/
def takePath (disk : Disk) (path : String) : IO Disk := do
  let mut disk := disk
  let mut location : Location := []
  for part in Path.parts path do
    if part = ".." then
      location := location.dropLast
    else if !Path.isIdle part then
      location := location ++ [part]
      disk ← takeNode disk location
  return disk

/-- The paths that a request may look at whatever the configuration says. -/
def firstPaths (request : Request) (directory : String) : List String :=
  let ancestors := Repository.climb Repository.greatestClimb directory
  let report :=
    match request.command with
    | some (.ingest path) => [Path.join directory path]
    | _ => []
  directory :: ancestors.map Repository.configurationPath ++ report

/-- The paths that the configuration names. -/
def dataPaths (disk : Disk) (directory : String) : List String :=
  match Repository.findRoot disk directory with
  | none => []
  | some root =>
    match Repository.loadConfiguration disk (Repository.configurationPath root) with
    | .error _ => []
    | .ok configuration =>
      let paths := configuration.paths root
      [paths.features, paths.invocations, Path.temporary paths.features,
        Path.temporary paths.invocations]

/-- The disk with all that a request may look at. -/
def snapshot (request : Request) (directory : String) : IO Disk := do
  let disk ← (firstPaths request directory).foldlM takePath .empty
  (dataPaths disk directory).foldlM takePath disk

/-- Write a file through a temporary one beside it. -/
def writeFile (path : String) (content : Bytes) : IO Unit := do
  let temporary := Path.temporary path
  IO.FS.writeBinFile temporary (ByteArray.mk content.toArray)
  IO.FS.rename temporary path

/-- Write back what has changed. -/
def writeBack (before after : Disk) : IO Unit := do
  for (location, node) in after.nodes.entries do
    if before.node? location != some node then
      match node with
      | .directory => IO.FS.createDirAll (pathOf location)
      | .file content => writeFile (pathOf location) content
  for (location, _) in before.nodes.entries do
    if (after.node? location).isNone then
      IO.FS.removeFile (pathOf location)

/-! ## Requests -/

def variableNames : List String :=
  ["TRELLIS_ASCII", "TRELLIS_COLOR", "NO_COLOR"]

/-- The environment, as far as output depends on it. -/
def environment : IO Environment := do
  let entries ← variableNames.filterMapM fun name => do
    return (← IO.getEnv name).map fun value => (name, Utf8.ofText value)
  return .ofList entries

/-- What is told when arguments make no request. -/
def usageText : UsageError → String
  | .unknownArgument => "error: unexpected argument found"
  | .missingArgument => "error: a required argument was not provided"
  | .invalidValue => "error: a value is required but none was supplied"
  | .conflict => "error: an argument cannot be used multiple times"
  | .surplusValue => "error: unexpected value for a flag"
  | .unknownCommand => "error: unrecognized subcommand"
  | .helpRequested => "Usage: trellis [--json] <" ++ "|".intercalate commandNames ++ ">"
  | .versionRequested => "trellis"

/-- Tell why arguments make no request; asking for help is no failure. -/
def refuse (error : UsageError) : IO UInt32 := do
  match error with
  | .helpRequested | .versionRequested =>
    IO.println (usageText error)
    return 0
  | _ =>
    IO.eprintln (usageText error)
    return 2

/-- Carry out a request in the working directory. -/
def serve (request : Request) : IO UInt32 := do
  let directory := toString (← IO.currentDir)
  let before ← snapshot request directory
  let context : Context :=
    { directory
      environment := ← environment
      isTerminal := ← (← IO.getStdout).isTty }
  let outcome := request.run before context
  writeBack before outcome.disk
  IO.print outcome.output
  match outcome.result with
  | .ok _ => return 0
  | .error error =>
    IO.eprintln ("Error: " ++ error.message)
    return 1

end FeatureAtlas.Program

def main (arguments : List String) : IO UInt32 :=
  match FeatureAtlas.CommandLine.Request.ofArguments arguments with
  | .error error => FeatureAtlas.Program.refuse error
  | .ok request => FeatureAtlas.Program.serve request
