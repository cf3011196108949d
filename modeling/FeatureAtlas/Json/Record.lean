import FeatureAtlas.Json.Reader
import FeatureAtlas.Table

/-!
# Records in JSON

A record is written as an object with its fields in any order, or as an array
of its fields in the order of declaration. Keys that name no field are passed
over; a field may be written once. A field that is missing is a problem unless
the record can do without it, and then only trailing fields of an array may be
left out.
-/

namespace FeatureAtlas.Json

/-- A field of a record whose parts are collected in `σ`. -/
structure Field (σ : Type) where
  name : String
  /-- The keys under which the field is written. -/
  keys : List String
  isOptional : Bool
  isSet : σ → Bool
  read : σ → Reader σ

/-- The fields of a record type in the order of declaration. -/
structure RecordShape (σ : Type) where
  typeName : String
  fields : List (Field σ)

namespace Field

variable {σ : Type}

/-- A field that holds a text and must be there. -/
def text (name : String) (get : σ → Option String) (set : σ → String → σ) : Field σ where
  name := name
  keys := [name]
  isOptional := false
  isSet state := (get state).isSome
  read state := readText.into (set state)

def optionalText (name : String) (get : σ → Option String) (set : σ → String → σ) :
    Field σ :=
  { text name get set with isOptional := true }

/-- A field that holds a list and may be missing. -/
def optionalList {α : Type} (name : String) (keys : List String) (item? : Option (Reader α))
    (get : σ → Option (List α)) (set : σ → List α → σ) : Field σ where
  name := name
  keys := keys
  isOptional := true
  isSet state := (get state).isSome
  read state := (readList item?).into (set state)

end Field

namespace RecordShape

variable {σ : Type}

/-- The field that is written under a key. -/
def field? (shape : RecordShape σ) (key : String) : Option (Field σ) :=
  shape.fields.find? fun field => key ∈ field.keys

/-- How the value under a key is taken: into its field, or not at all. -/
def member (shape : RecordShape σ) (state : σ) (key : String) :
    Except Problem (Reader σ) :=
  match shape.field? key with
  | some field =>
    if field.isSet state then .error (.duplicateField field.name)
    else .ok (field.read state)
  | none => .ok (passing state)

/-- The first field that is missing and must not be. -/
def missing? (shape : RecordShape σ) (state : σ) : Option (Field σ) :=
  shape.fields.find? fun field => !field.isOptional && !field.isSet state

/-- The name of the record and the number of its elements, as messages show them. -/
def description (shape : RecordShape σ) : String :=
  let count := shape.fields.length
  "struct " ++ shape.typeName ++ " with " ++ String.ofList (Decimal.digitsOf count) ++
    (if count = 1 then " element" else " elements")

/-- Read the fields of a record from an object, after its opening brace. -/
def readObject (shape : RecordShape σ) (start : σ) : Reader σ := fun input => do
  let (state, rest) ← readAllMembers shape.member start input
  match shape.missing? state with
  | some field => .error (.missingField field.name)
  | none => .ok (state, rest)

/-- Read the fields one by one from an array; `index` is that of the next field. -/
def readElements (description : String) : List (Field σ) → Nat → Bool → σ → Reader σ
  | [], _, _, state, input => .ok (state, input)
  | field :: fields, index, first, state, input =>
    match skipSpace input with
    | [] => .error .endInArray
    | byte :: rest =>
      if byte = closeBracket then
        if field.isOptional then
          readElements description fields (index + 1) first state (byte :: rest)
        else .error (.wrongLength index description)
      else do
        let (_, rest) ← nextItem first (byte :: rest)
        let (state, rest) ← field.read state rest
        readElements description fields (index + 1) false state rest

/-- Take the closing bracket after the last field. -/
def takeArrayEnd (input : Bytes) : Except Problem Bytes :=
  match skipSpace input with
  | [] => .error .endInArray
  | byte :: rest =>
    if byte = closeBracket then .ok rest
    else if byte = commaByte then
      match skipSpace rest with
      | next :: _ => .error (if next = closeBracket then .trailingComma else .trailingCharacters)
      | [] => .error .trailingCharacters
    else .error .trailingCharacters

/-- Read the fields of a record from an array, after its opening bracket. -/
def readArray (shape : RecordShape σ) (start : σ) : Reader σ := fun input => do
  let (state, rest) ← readElements shape.description shape.fields 0 true start input
  let rest ← takeArrayEnd rest
  .ok (state, rest)

/-- Read a record, which takes one container of the room. -/
def readWithin (shape : RecordShape σ) (room : Nat) (start : σ) : Reader σ := fun input =>
  match skipSpace input with
  | [] => .error .endInValue
  | byte :: rest =>
    if byte = openBrace then
      if room = 0 then .error .tooDeep else shape.readObject start rest
    else if byte = openBracket then
      if room = 0 then .error .tooDeep else shape.readArray start rest
    else .error (wrongTypeAt ("struct " ++ shape.typeName) byte rest)

/-- Read a record that lies in no other container. -/
def read (shape : RecordShape σ) (start : σ) : Reader σ :=
  shape.readWithin greatestDepth start

end RecordShape

/-! ## Buffered members -/

/-- The members of an object that name texts, each of them at most once. -/
def namedTexts (names : List String) :
    List (String × Value) → Table String String → Except Problem (Table String String)
  | [], found => .ok found
  | (key, value) :: rest, found =>
    if key ∈ names then
      if found.contains key then .error (.duplicateField key)
      else
        match value with
        | .text text => namedTexts names rest (found.insert key text)
        | other => .error (.wrongType other.found "a string")
    else namedTexts names rest found

/-- The text under a name that must be there. -/
def requiredText (found : Table String String) (name : String) : Except Problem String :=
  match found.get? name with
  | some text => .ok text
  | none => .error (.missingField name)

end FeatureAtlas.Json
