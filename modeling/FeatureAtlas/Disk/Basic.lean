import FeatureAtlas.Disk.Path
import FeatureAtlas.Error
import FeatureAtlas.Table
import FeatureAtlas.Text.Utf8

/-!
# The disk

A disk holds files and directories at locations, the lists of names on the way
from the top. A path is walked part by part: every part but the last has to
lead to a directory, and `..` goes back up.

What is done to a file may be refused: its path can be too long to ask for it,
and a closed directory takes no new name and gives none up, though the files in
it can be written.
-/

namespace FeatureAtlas

/-- The names on the way from the top of the disk. -/
abbrev Location := List String

inductive Disk.Node
  | file (content : Bytes)
  | directory
deriving DecidableEq, Repr

/-- Files and directories at their locations; the top is a directory without an entry. -/
structure Disk where
  nodes : Table Location Disk.Node
  /-- The directories whose names stay as they are. -/
  closed : List Location := []
deriving DecidableEq, Repr

namespace Disk

def empty : Disk where
  nodes := .empty

def node? (disk : Disk) (location : Location) : Option Node :=
  if location = [] then some .directory else disk.nodes.get? location

def isClosed (disk : Disk) (location : Location) : Bool :=
  disk.closed.contains location

def put (disk : Disk) (location : Location) (node : Node) : Disk :=
  { disk with nodes := disk.nodes.insert location node }

def remove (disk : Disk) (location : Location) : Disk :=
  { disk with nodes := disk.nodes.discard location.isPrefixOf }

@[simp]
theorem isClosed_put (disk : Disk) (location : Location) (node : Node) :
    (disk.put location node).isClosed = disk.isClosed := rfl

@[simp]
theorem isClosed_remove (disk : Disk) (location : Location) :
    (disk.remove location).isClosed = disk.isClosed := rfl

@[simp]
theorem node?_top (disk : Disk) : disk.node? [] = some .directory := by
  simp [node?]

/-- Putting something at a location below the top changes what is there and nowhere else. -/
theorem node?_put (disk : Disk) {location : Location} (node : Node) (below : location ≠ [])
    (other : Location) :
    (disk.put location node).node? other =
      if other = location then some node else disk.node? other := by
  by_cases top : other = []
  · subst top
    simp [Ne.symm below]
  · simp only [node?, put, top, if_false, Table.get?_insert, eq_comm]

/-- Removing a location leaves what is not below it. -/
theorem node?_remove (disk : Disk) (location other : Location) :
    (disk.remove location).node? other =
      if location.isPrefixOf other && !other.isEmpty then none else disk.node? other := by
  by_cases top : other = []
  · subst top
    simp
  · simp [node?, remove, top, Table.get?_discard]

def checkDirectory (disk : Disk) (location : Location) : Except FileError Unit :=
  match disk.node? location with
  | none => .error .missing
  | some (.file _) => .error .notDirectory
  | some .directory => .ok ()

/-- The location that parts lead to; what is there does not matter. -/
def walk (disk : Disk) : Location → List String → Except FileError Location
  | location, [] => .ok location
  | location, part :: parts => do
    disk.checkDirectory location
    if Path.isIdle part then walk disk location parts
    else if part = ".." then walk disk location.dropLast parts
    else walk disk (location ++ [part]) parts

def locate (disk : Disk) (path : String) : Except FileError Location :=
  if path.isEmpty then .error .missing else disk.walk [] (Path.parts path)

/-- Whether there is something at a path, if its directories are in place. -/
def exists? (disk : Disk) (path : String) : Except FileError Bool :=
  match disk.locate path with
  | .ok location => .ok (disk.node? location).isSome
  | .error .missing => .ok false
  | .error error => .error error

def has (disk : Disk) (path : String) : Bool :=
  match disk.exists? path with
  | .ok present => present
  | .error _ => false

/-- Where a path leads, if it is short enough to ask for it. -/
def resolve (disk : Disk) (path : String) : Except FileError Location :=
  if Path.fits path then disk.locate path else .error .tooLong

def read (disk : Disk) (path : String) : Except FileError Bytes := do
  match disk.node? (← disk.resolve path) with
  | none => .error .missing
  | some .directory => .error .isDirectory
  | some (.file content) => .ok content

def readText (disk : Disk) (path : String) : Except FileError String := do
  match Utf8.text? (← disk.read path) with
  | some text => .ok text
  | none => .error .notText

/-- The directory that a new name goes into, the name, and whether a slash follows it. -/
def target (disk : Disk) (path : String) : Except FileError (Location × String × Bool) :=
  let trailing := (Path.parts path).reverse.takeWhile (· == "")
  if !Path.fits path then .error .tooLong
  else
    match (Path.parts path).reverse.dropWhile (· == "") with
    | [] => if path.isEmpty then .error .missing else .error .isDirectory
    | name :: before => do
      let directory ← disk.walk [] before.reverse
      disk.checkDirectory directory
      .ok (directory, name, !trailing.isEmpty)

/-- Whether a part stands for a directory by itself. -/
def isDots (part : String) : Bool :=
  part == "." || part == ".."

/-- Write a file, which is made if it is missing. -/
def write (disk : Disk) (path : String) (content : Bytes) : Except FileError Disk := do
  let (directory, name, slash) ← disk.target path
  if slash || isDots name then .error .isDirectory
  else
    match disk.node? (directory ++ [name]) with
    | some .directory => .error .isDirectory
    | some (.file _) => .ok (disk.put (directory ++ [name]) (.file content))
    | none =>
      if disk.isClosed directory then .error .denied
      else .ok (disk.put (directory ++ [name]) (.file content))

def removeFile (disk : Disk) (path : String) : Except FileError Disk := do
  let location ← disk.resolve path
  match disk.node? location with
  | none => .error .missing
  | some .directory => .error .isDirectory
  | some (.file _) =>
    if disk.isClosed location.dropLast then .error .denied else .ok (disk.remove location)

/-- Remove a file if that can be done. -/
def discard (disk : Disk) (path : String) : Disk :=
  match disk.removeFile path with
  | .ok removed => removed
  | .error _ => disk

/-- Move a file to another name, in place of a file that has it. -/
def rename (disk : Disk) (source path : String) : Except FileError Disk := do
  let content ← disk.read source
  let origin ← disk.resolve source
  let (directory, name, slash) ← disk.target path
  if isDots name then .error .busy
  else if slash then .error .notDirectory
  else if disk.isClosed origin.dropLast || disk.isClosed directory then .error .denied
  else
    match disk.node? (directory ++ [name]) with
    | some .directory => .error .isDirectory
    | _ => .ok ((disk.remove origin).put (directory ++ [name]) (.file content))

/-- Make the directories on the way down from a location. -/
def makeDirectories (disk : Disk) : Location → List String → Except FileError Disk
  | _, [] => .ok disk
  | location, part :: parts =>
    if Path.isIdle part then disk.makeDirectories location parts
    else if part = ".." then disk.makeDirectories location.dropLast parts
    else
      let below := location ++ [part]
      match disk.node? below with
      | some (.file _) => .error .notDirectory
      | some .directory => disk.makeDirectories below parts
      | none =>
        if disk.isClosed location then .error .denied
        else (disk.put below .directory).makeDirectories below parts

def makeDirectory (disk : Disk) (path : String) : Except FileError Disk :=
  if Path.fits path then disk.makeDirectories [] (Path.parts path) else .error .tooLong

end Disk

end FeatureAtlas
