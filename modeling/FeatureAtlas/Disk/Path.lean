/-!
# Paths

A path is a text of names between slashes. Paths are kept as they are written:
joining and going to the parent change the end of the text only and do not
look at the disk.
-/

namespace FeatureAtlas.Path

def separator : Char := '/'

/-- The greatest number of bytes of a path by which a file is asked for. -/
def greatestSize : Nat := 4095

def fits (path : String) : Bool :=
  path.utf8ByteSize ≤ greatestSize

/-- The parts between the slashes. -/
def partsOf : List Char → List (List Char)
  | [] => [[]]
  | character :: rest =>
    if character = separator then [] :: partsOf rest
    else
      match partsOf rest with
      | [] => [[character]]
      | part :: parts => (character :: part) :: parts

/-- The parts of a path; that of an absolute one begin with an empty part. -/
def parts (path : String) : List String :=
  (partsOf path.toList).map String.ofList

def ofParts : List String → String
  | [""] => "/"
  | parts => "/".intercalate parts

def isAbsolute (path : String) : Bool :=
  path.toList.head? == some separator

/-- A path seen from a directory. -/
def join (base path : String) : String :=
  if isAbsolute path || base.isEmpty then path
  else if base.toList.getLast? = some separator then base ++ path
  else base ++ "/" ++ path

/-- Whether a part names nothing. -/
def isIdle (part : String) : Bool :=
  part == "" || part == "."

/-- Parts in reverse without the idle ones in front; the last part is kept. -/
def dropIdle : List String → List String
  | [] => []
  | [part] => [part]
  | part :: next :: rest => if isIdle part then dropIdle (next :: rest) else part :: next :: rest

/-- The parts of a path in reverse, without idle ones at the end of the path. -/
def reverseParts (path : String) : List String :=
  dropIdle (parts path).reverse

/-- The path without its last part, if it has one. -/
def parent? (path : String) : Option String :=
  match reverseParts path with
  | [] => none
  | [""] => none
  | [_] => some ""
  | _ :: rest => some (ofParts (dropIdle rest).reverse)

/-- The last part of a path, if it is a name. -/
def fileName? (path : String) : Option String :=
  match reverseParts path with
  | [] => none
  | name :: _ => if isIdle name || name == ".." then none else some name

/-- The path with the name of a temporary file; a path that ends in no name stays as it is. -/
def temporary (path : String) : String :=
  match fileName? path with
  | some _ => ofParts (reverseParts path).reverse ++ ".tmp"
  | none => path

end FeatureAtlas.Path
