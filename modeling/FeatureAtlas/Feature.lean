import FeatureAtlas.Distinct
import FeatureAtlas.Text.Blank

/-!
# Features

A feature is a documented unit of behaviour. Its identity is the product, the
group within the product, the title and the version; its declared signatures
tie it to the code units that are its entry points.
-/

namespace FeatureAtlas

/-- A product at one version: the unit within which signatures are resolved. -/
structure Scope where
  product : String
  version : String
deriving DecidableEq, Repr, Inhabited

/-- Identity of a feature; two features are the same if all four parts agree. -/
structure FeatureId where
  product : String
  /-- May be empty: then the feature belongs to no group. -/
  group : String
  title : String
  version : String
deriving DecidableEq, Repr, Inhabited

/-- A documented feature and its entry points, in the order of declaration. -/
structure Feature where
  id : FeatureId
  signatures : List String
deriving DecidableEq, Repr, Inhabited

namespace Scope

def label (scope : Scope) : String :=
  scope.product ++ "@" ++ scope.version

/-- Scopes are ordered by product, then by version. -/
instance : Ord Scope where
  compare left right :=
    (compare left.product right.product).then (compare left.version right.version)

end Scope

namespace FeatureId

def scope (id : FeatureId) : Scope :=
  ⟨id.product, id.version⟩

def inScope (id : FeatureId) (scope : Scope) : Bool :=
  id.product == scope.product && id.version == scope.version

/-- The identity as it is shown; an empty group is left out. -/
def label (id : FeatureId) : String :=
  if id.group.isEmpty then
    id.product ++ "/" ++ id.title ++ "@" ++ id.version
  else
    id.product ++ "/" ++ id.group ++ "/" ++ id.title ++ "@" ++ id.version

/-- Identities are ordered by product, group, title and version. -/
instance : Ord FeatureId where
  compare left right :=
    (compare left.product right.product).then <|
      (compare left.group right.group).then <|
        (compare left.title right.title).then (compare left.version right.version)

theorem inScope_iff (id : FeatureId) (scope : Scope) :
    id.inScope scope = true ↔ id.scope = scope := by
  cases id
  cases scope
  simp [inScope, FeatureId.scope]

/-- The scopes of a list of identities, in the order in which they first occur. -/
def scopes (ids : List FeatureId) : List Scope :=
  Distinct.ofList (ids.map scope)

end FeatureId

/-- Why a feature or a ledger record is refused. -/
inductive Defect
  | blankProduct
  | blankTitle
  | blankVersion
  | blankSignature
  | blankDeclaration (feature : FeatureId)
  | blankInvocation (signature : String)
deriving DecidableEq, Repr

def Defect.message : Defect → String
  | .blankProduct => "product cannot be empty"
  | .blankTitle => "title cannot be empty"
  | .blankVersion => "version cannot be empty"
  | .blankSignature => "signature cannot be empty"
  | .blankDeclaration feature =>
    "feature '" ++ feature.label ++ "' declares a blank signature"
  | .blankInvocation signature =>
    "'" ++ signature ++ "' invokes a blank signature"

namespace Feature

open Text (isBlank)

/--
The first defect of a feature: product, title, version and every declared
signature must not be blank.
-/
def defect? (feature : Feature) : Option Defect :=
  if isBlank feature.id.product then some .blankProduct
  else if isBlank feature.id.title then some .blankTitle
  else if isBlank feature.id.version then some .blankVersion
  else if feature.signatures.any isBlank then some (.blankDeclaration feature.id)
  else none

def IsValid (feature : Feature) : Prop :=
  feature.defect? = none

instance (feature : Feature) : Decidable feature.IsValid :=
  inferInstanceAs (Decidable (feature.defect? = none))

end Feature

end FeatureAtlas
