import FeatureAtlas.Disk.Basic
import FeatureAtlas.Jsonl.Lines

/-!
# Writing JSON lines

A file is replaced through a temporary file beside it, so whoever looks at the
file sees the old content or the new one and nothing between. If the temporary
file cannot be written, it is removed, and it stays where it is if it cannot be
removed either.
-/

namespace FeatureAtlas.Jsonl

open Json (Problem Value)

/-- A value that is to be written, or why it has no form. -/
abbrev Line := Except Problem Value

/-- The line of a value with its line feed. -/
def lineOf (value : Value) : Bytes :=
  Utf8.encode value.written ++ [lineFeed]

/-- The content of a file with one line for each value. -/
def content : List Line → Except Problem Bytes
  | [] => .ok []
  | line :: rest => do
    let value ← line
    let more ← content rest
    .ok (lineOf value ++ more)

/-- The lines up to the first one without a form. -/
def begun : List Line → Bytes
  | .ok value :: rest => lineOf value ++ begun rest
  | _ => []

/--
Fill a file with one line for each value; the disk after that, whatever the
outcome. At a value without a form the file has got the first `passed` bytes of
the lines before it, and what the writer still holds back is lost.
-/
def fill (disk : Disk) (path : String) (lines : List Line) (passed : Nat) :
    Except LinesError Unit × Disk :=
  match content lines with
  | .ok bytes =>
    match disk.write path bytes with
    | .error error => (.error (.file error), disk)
    | .ok filled => (.ok (), filled)
  | .error problem =>
    match disk.write path ((begun lines).take passed) with
    | .error error => (.error (.file error), disk)
    | .ok filled => (.error (.json problem), filled)

/-- Replace a file by one line for each value; the disk after that, whatever the outcome. -/
def replace (disk : Disk) (path : String) (lines : List Line) (passed : Nat := 0) :
    Except LinesError Unit × Disk :=
  let temporary := Path.temporary path
  match fill disk temporary lines passed with
  | (.error error, disk) => (.error error, disk.discard temporary)
  | (.ok _, filled) =>
    match filled.rename temporary path with
    | .error error => (.error (.file error), filled)
    | .ok replaced => (.ok (), replaced)

end FeatureAtlas.Jsonl
