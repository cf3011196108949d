import FeatureAtlas.Feature
import FeatureAtlas.Json.Problem

/-!
# Errors

Why an operation fails. Signatures that belong to no feature are never errors:
they leave relations out. Each error is a cause; its wording is kept apart.
-/

namespace FeatureAtlas

/-- Why a file or a directory cannot be used. -/
inductive FileError
  | missing
  | notDirectory
  | isDirectory
  /-- The path ends in no name that a file could take. -/
  | busy
  /-- The path has too many bytes. -/
  | tooLong
  /-- The directory takes no new name or gives none up. -/
  | denied
  | notText
  /-- A failure that a backend reports in its own words. -/
  | reported (text : String)
deriving DecidableEq, Repr

def FileError.message : FileError → String
  | .missing => "No such file or directory (os error 2)"
  | .notDirectory => "Not a directory (os error 20)"
  | .isDirectory => "Is a directory (os error 21)"
  | .busy => "Device or resource busy (os error 16)"
  | .tooLong => "File name too long (os error 36)"
  | .denied => "Permission denied (os error 13)"
  | .notText => "stream did not contain valid UTF-8"
  | .reported text => text

/-- Why a file of JSON lines cannot be read or written. -/
inductive LinesError
  | file (error : FileError)
  | json (problem : Json.Problem)
deriving DecidableEq, Repr

def LinesError.message : LinesError → String
  | .file error => "IO error: " ++ error.message
  | .json problem => "JSON error: " ++ problem.message

/-- Why an operation on a repository, a store or a graph fails. -/
inductive Error
  | file (error : FileError)
  | json (problem : Json.Problem)
  /-- No repository holds the working directory. -/
  | notInitialized
  /-- A repository is to be made where there is one. -/
  | alreadyInitialized (path : String)
  | invalidConfiguration
  | dataFile (error : LinesError)
  | invalidRecord (defect : Defect)
  /-- The scope has no feature of the title. -/
  | featureNotFound (scope : Scope) (title : String)
  /-- Two features declare the same signature, and that is not accepted. -/
  | ambiguousOwner (signature : String) (first second : FeatureId)
deriving DecidableEq, Repr

def Error.message : Error → String
  | .file error => "IO error: " ++ error.message
  | .json problem => "JSON error: " ++ problem.message
  | .notInitialized =>
    "Not a trellis repository (or any of the parent directories). Run 'trellis init' first."
  | .alreadyInitialized path =>
    "Trellis is already initialized here. Found existing '" ++ path ++ "'"
  | .invalidConfiguration => "Invalid configuration"
  | .dataFile error => "Data file error: " ++ error.message
  | .invalidRecord defect => "Invalid record: " ++ defect.message
  | .featureNotFound scope title =>
    "Feature not found: '" ++ title ++ "' in " ++ scope.label
  | .ambiguousOwner signature first second =>
    "Signature '" ++ signature ++ "' is declared by both " ++ first.label ++
      " and " ++ second.label

end FeatureAtlas
