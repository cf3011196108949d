import FeatureAtlas.Json.Record
import FeatureAtlas.Settings

/-!
# Settings in JSON

An extent is an object that names its kind in the member `scope`, which may
stand anywhere among the other members, or an array with the kind in front. A
policy is its name, or an object with the name as its only key.
-/

namespace FeatureAtlas

open Json

/-! ## Extents -/

/-- The kinds of extents. -/
inductive ExtentKind
  | all
  | product
  | release
deriving DecidableEq, Repr

namespace ExtentKind

def names : List String :=
  ["all", "product", "release"]

def ofName? (name : String) : Option ExtentKind :=
  if name = "all" then some .all
  else if name = "product" then some .product
  else if name = "release" then some .release
  else none

def name : ExtentKind → String
  | .all => "all"
  | .product => "product"
  | .release => "release"

/-- The names of the texts that an extent of the kind holds. -/
def fields : ExtentKind → List String
  | .all => []
  | .product => ["product"]
  | .release => ["product", "version"]

/-- What is expected of an array of the kind. -/
def description : ExtentKind → String
  | .all => "unit variant RootScope::All"
  | .product => "struct variant RootScope::Product with 1 element"
  | .release => "struct variant RootScope::Release with 2 elements"

/-- The extent of a kind made of the texts under its names. -/
def extent (kind : ExtentKind) (texts : Table String String) : Except Problem Extent :=
  match kind with
  | .all => .ok .all
  | .product => do .ok (.product (← requiredText texts "product"))
  | .release => do
    let product ← requiredText texts "product"
    let version ← requiredText texts "version"
    .ok (.release product version)

def reader : Reader ExtentKind := fun input => do
  let (name, rest) ← readTextAs "variant identifier" input
  match ofName? name with
  | some kind => .ok (kind, rest)
  | none => .error (.unknownVariant name names)

end ExtentKind

/-- What has been read of an extent: its kind, and all other members with the last one first. -/
structure ExtentParts where
  kind : Option ExtentKind := none
  others : List (String × Value) := []

namespace Extent

def kindKey : String := "scope"

/-- The members of the object that stands for an extent. -/
def members : Extent → List (String × String)
  | .all => [(kindKey, "all")]
  | .product name => [(kindKey, "product"), ("product", name)]
  | .release name version =>
    [(kindKey, "release"), ("product", name), ("version", version)]

def toValue (extent : Extent) : Value :=
  .object (extent.members.map fun (key, text) => (key, .text text))

/-- How the value under a key is taken. -/
def member (parts : ExtentParts) (key : String) : Except Problem (Reader ExtentParts) :=
  if key = kindKey then
    if parts.kind.isSome then .error (.duplicateField kindKey)
    else .ok (ExtentKind.reader.into fun kind => { parts with kind := some kind })
  else
    .ok <| (readValue (greatestDepth - 1)).into fun value =>
      { parts with others := (key, value) :: parts.others }

/-- The extent of a kind with members that were set aside. -/
def ofMembers (kind : ExtentKind) (others : List (String × Value)) :
    Except Problem Extent := do
  kind.extent (← namedTexts kind.fields others .empty)

/-- The texts of a list of values, each under the name in its place. -/
def textsInOrder (kind : ExtentKind) : List String → Nat → List Value →
    Except Problem (Table String String)
  | [], index, values =>
    if values.isEmpty then .ok .empty
    else
      .error <| .wrongLength (index + values.length) <|
        String.ofList (Decimal.digitsOf index) ++
          (if index = 1 then " element in sequence" else " elements in sequence")
  | _ :: _, index, [] => .error (.wrongLength index kind.description)
  | name :: names, index, value :: values =>
    match value with
    | .text text => do
      let texts ← textsInOrder kind names (index + 1) values
      .ok (texts.insert name text)
    | other => .error (.wrongType other.found "a string")

/-- Read the kind and the values after it from an array, after its opening bracket. -/
def readElements : Reader (ExtentKind × List Value) := fun input => do
  match ← nextItem true input with
  | (false, _) => .error (.missingField kindKey)
  | (true, rest) =>
    let (kind, rest) ← ExtentKind.reader rest
    let (values, rest) ← readItems (readValue (greatestDepth - 1)) (rest.length + 1) false rest
    .ok ((kind, values), rest)

def reader : Reader Extent := fun input =>
  match skipSpace input with
  | [] => .error .endInValue
  | byte :: rest =>
    if byte = openBrace then do
      let (parts, rest) ← readAllMembers member {} rest
      match parts.kind with
      | none => .error (.missingField kindKey)
      | some kind =>
        let extent ← ofMembers kind parts.others.reverse
        .ok (extent, rest)
    else if byte = openBracket then do
      let ((kind, values), rest) ← readElements rest
      let extent ← kind.extent (← textsInOrder kind kind.fields 0 values)
      .ok (extent, rest)
    else .error (wrongTypeAt "internally tagged enum RootScope" byte rest)

end Extent

/-! ## Policies -/

namespace ConflictPolicy

def names : List String :=
  ["first-wins", "reject"]

def name : ConflictPolicy → String
  | .firstWins => "first-wins"
  | .reject => "reject"

def ofName? (name : String) : Option ConflictPolicy :=
  if name = "first-wins" then some .firstWins
  else if name = "reject" then some .reject
  else none

def toValue (policy : ConflictPolicy) : Value :=
  .text policy.name

def readName : Reader ConflictPolicy := fun input => do
  let (name, rest) ← readTextAs "variant identifier" input
  match ofName? name with
  | some policy => .ok (policy, rest)
  | none => .error (.unknownVariant name names)

def readNull (input : Bytes) : Except Problem Bytes :=
  match skipSpace input with
  | [] => .error .endInValue
  | byte :: rest =>
    if byte = 0x6E then takeLetters nullLetters rest
    else .error (wrongTypeAt "unit" byte rest)

def reader : Reader ConflictPolicy := fun input =>
  match skipSpace input with
  | [] => .error .endInValue
  | byte :: rest =>
    if byte = openBrace then do
      let (policy, rest) ← readName rest
      let rest ← takeColon rest
      let rest ← readNull rest
      match skipSpace rest with
      | [] => .error .endInObject
      | byte :: rest => if byte = closeBrace then .ok (policy, rest) else .error .expectedValue
    else if byte = quoteByte then readName (byte :: rest)
    else .error .expectedValue

end ConflictPolicy

end FeatureAtlas
