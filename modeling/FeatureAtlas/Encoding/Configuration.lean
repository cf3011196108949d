import FeatureAtlas.Encoding.Settings
import FeatureAtlas.Repository.Configuration
import FeatureAtlas.Yaml.Reader
import FeatureAtlas.Yaml.Writer

/-!
# Configuration files

A configuration is a mapping with a key for each of its parts; other keys are
ignored. The names of files may be any scalars. Inside an extent a scalar
without quotes counts for what it stands for, and only texts are accepted.

Repositories are opened with any decoder of such texts; the one here is what the
program uses.
-/

namespace FeatureAtlas

open Yaml

namespace Yaml.Node

/-- What a scalar stands for; one with quotes is text. -/
def kind? : Node → Option Kind
  | .scalar text isPlain => some (if isPlain then Kind.ofPlain text else .text)
  | _ => none

def text? (node : Node) : Option String :=
  if node.kind? = some .text then node.scalar? else none

mutual

/-- Whether an integer of more than 64 bits is in a node. -/
def hasWide : Node → Bool
  | .scalar text isPlain => isPlain && Kind.ofPlain text == .wide
  | .sequence items => itemsHaveWide items
  | .mapping entries => entriesHaveWide entries

def itemsHaveWide : List Node → Bool
  | [] => false
  | item :: items => hasWide item || itemsHaveWide items

def entriesHaveWide : List (Node × Node) → Bool
  | [] => false
  | (key, value) :: entries => hasWide key || hasWide value || entriesHaveWide entries

end

end Yaml.Node

/-! ## Extents -/

namespace Extent

/-- Which of some names a key is, by itself or by its number; keys of other kinds are refused. -/
def keyIndex? (names : List String) (key : Node) : Option (Option Nat) :=
  match key.kind? with
  | some .text => some (key.scalar?.bind names.idxOf?)
  | some (.natural number) => some (if number < names.length then some number else none)
  | _ => none

/-- The texts under names, each of which is there once. -/
def namedNodes? (names : List String) (entries : List (Node × Node)) :
    Option (List String) := do
  let indexed ← entries.mapM fun (key, value) =>
    (keyIndex? names key).map fun index => (index, value)
  (List.range names.length).mapM fun index =>
    match indexed.filter fun entry => entry.1 = some index with
    | [(_, value)] => value.text?
    | _ => none

/-- The extent of a kind with texts for its names in order. -/
def ofTexts? (kind : ExtentKind) (texts : List String) : Option Extent :=
  (kind.extent (.ofList (kind.fields.zip texts))).toOption

def isKindKey (key : Node) : Bool :=
  key.text? = some kindKey

/-- The extent of a mapping. -/
def ofEntries? (entries : List (Node × Node)) : Option Extent :=
  match entries.filter fun entry => isKindKey entry.1 with
  | [(_, value)] => do
    let kind ← value.scalar?.bind ExtentKind.ofName?
    if kind = .all then some .all
    else
      let others := entries.filter fun entry => !isKindKey entry.1
      ofTexts? kind (← namedNodes? kind.fields others)
  | _ => none

/-- The extent of a sequence: the kind and then its texts. -/
def ofItems? : List Node → Option Extent
  | [] => none
  | first :: items => do
    let kind ← first.scalar?.bind ExtentKind.ofName?
    if items.length = kind.fields.length then ofTexts? kind (← items.mapM (·.text?))
    else none

def ofNode? (node : Node) : Option Extent :=
  if node.hasWide then none
  else
    match node with
    | .mapping entries => ofEntries? entries
    | .sequence items => ofItems? items
    | .scalar _ _ => none

end Extent

/-! ## Configurations -/

namespace Configuration

def featuresKey : String := "features-file"
def invocationsKey : String := "invocations-file"
def extentKey : String := "roots"
def policyKey : String := "signature-conflicts"

/-- The keys in the order in which they are written. -/
def fileKeys : List String :=
  [featuresKey, invocationsKey, extentKey, policyKey]

def value? (entries : List (String × Node)) (key : String) : Option Node :=
  (entries.find? fun entry => entry.1 = key).map (·.2)

/-- What a value means if there is one, and otherwise a standard. -/
def orStandard {α : Type} (standard : α) (read : Node → Option α) : Option Node → Option α
  | none => some standard
  | some value => read value

/-- The configuration of a mapping with texts as keys. -/
def ofEntries? (entries : List (String × Node)) : Option Configuration :=
  if fileKeys.any fun key => 1 < (entries.filter fun entry => entry.1 = key).length then none
  else do
    let features ← (← value? entries featuresKey).scalar?
    let invocations ← (← value? entries invocationsKey).scalar?
    let extent ← orStandard standard.extent Extent.ofNode? (value? entries extentKey)
    let policy ← orStandard standard.policy
      (fun node => node.scalar?.bind ConflictPolicy.ofName?) (value? entries policyKey)
    some ⟨features, invocations, extent, policy⟩

/-- The configuration of a node: a mapping with scalars as keys. -/
def ofNode? : Node → Option Configuration
  | .mapping entries => do
    let entries ← entries.mapM fun (key, value) => key.scalar?.map fun key => (key, value)
    ofEntries? entries
  | _ => none

/-- What makes a configuration of the text of a file, or refuses it. -/
abbrev Decoder := String → Option Configuration

/-- The configuration that a text describes in the part of YAML that is read here. -/
def ofText? (text : String) : Option Configuration :=
  (document? text).bind ofNode?

def entryLine (indent key value : String) : String :=
  indent ++ key ++ ": " ++ value ++ "\n"

def extentText (extent : Extent) : String :=
  String.join <| extent.members.map fun (key, text) => entryLine "  " key (scalarText text)

def text (configuration : Configuration) : String :=
  entryLine "" featuresKey (scalarText configuration.features) ++
    entryLine "" invocationsKey (scalarText configuration.invocations) ++
    extentKey ++ ":\n" ++ extentText configuration.extent ++
    entryLine "" policyKey configuration.policy.name

end Configuration

end FeatureAtlas
