import FeatureAtlas.Disk.Basic
import FeatureAtlas.Json.Reader
import FeatureAtlas.Jsonl.Lines
import FeatureAtlas.Text.Blank

/-!
# Reading JSON lines

Every line holds one record. Blank lines are passed over; a line that is no
text or holds no record gives a warning with its number, and reading goes on.
-/

namespace FeatureAtlas.Jsonl

open Json (Reader Problem readDocument)

/-- Why a line was passed over; lines are counted from one. -/
inductive Warning
  | malformed (line : Nat) (problem : Problem)
  | notText (line : Nat)
deriving DecidableEq, Repr

namespace Warning

def line : Warning → Nat
  | .malformed line _ => line
  | .notText line => line

def reason : Warning → String
  | .malformed _ problem => problem.message
  | .notText _ => "invalid UTF-8"

def message : Warning → String
  | .malformed line problem =>
    "line " ++ toString line ++ ": malformed JSON: " ++ problem.message
  | .notText line => "line " ++ toString line ++ ": skipped: invalid UTF-8"

end Warning

/-- What reading yields: records and warnings, both in the order of the lines. -/
structure Reading (α : Type) where
  records : List α
  warnings : List Warning
deriving DecidableEq, Repr

namespace Reading

variable {α : Type}

def empty : Reading α :=
  ⟨[], []⟩

def append (first second : Reading α) : Reading α :=
  ⟨first.records ++ second.records, first.warnings ++ second.warnings⟩

/-- What one line yields. -/
def ofLine (reader : Reader α) (number : Nat) (line : Bytes) : Reading α :=
  match Utf8.decode? line with
  | none => ⟨[], [.notText number]⟩
  | some characters =>
    if Text.allWhiteSpace characters then empty
    else
      match readDocument reader line with
      | .ok record => ⟨[record], []⟩
      | .error problem => ⟨[], [.malformed number problem]⟩

/-- What lines yield, the first of them behind `count` others. -/
def ofLines (reader : Reader α) : Nat → List Bytes → Reading α
  | _, [] => empty
  | count, line :: rest =>
    (ofLine reader (count + 1) line).append (ofLines reader (count + 1) rest)

end Reading

def Cursor.read {α : Type} (cursor : Cursor) (reader : Reader α) : Reading α :=
  .ofLines reader cursor.lineNumber (lines cursor.remaining)

/-- Read all lines. -/
def read {α : Type} (reader : Reader α) (data : Bytes) : Reading α :=
  (Cursor.start data).read reader

/-- Read all lines of a file. -/
def readFrom {α : Type} (disk : Disk) (path : String) (reader : Reader α) :
    Except LinesError (Reading α) :=
  match disk.read path with
  | .ok data => .ok (read reader data)
  | .error error => .error (.file error)

end FeatureAtlas.Jsonl
