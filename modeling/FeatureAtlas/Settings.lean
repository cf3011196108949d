import FeatureAtlas.Feature

/-!
# Query settings

How far a query reaches and what becomes of a signature that several features
declare.
-/

namespace FeatureAtlas

/-- Which features a query ranges over. -/
inductive Extent
  | all
  | product (name : String)
  | release (name version : String)
deriving DecidableEq, Repr, Inhabited

namespace Extent

def label : Extent → String
  | .all => "all products"
  | .product name => name
  | .release name version => name ++ "@" ++ version

/-- The extent that optional filters describe; a version without a product is ignored. -/
def ofFilters : Option String → Option String → Extent
  | some name, some version => .release name version
  | some name, none => .product name
  | none, _ => .all

def product? : Extent → Option String
  | .all => none
  | .product name => some name
  | .release name _ => some name

def version? : Extent → Option String
  | .release _ version => some version
  | _ => none

/-- Whether a feature passes optional filters on product and version. -/
def passes (product? version? : Option String) (id : FeatureId) : Bool :=
  (product?.all fun name => id.product == name) &&
    version?.all fun version => id.version == version

/-- Whether the extent reaches a feature. -/
def reaches (extent : Extent) (id : FeatureId) : Bool :=
  passes extent.product? extent.version? id

end Extent

/-- What becomes of a signature that several features declare. -/
inductive ConflictPolicy
  /-- The feature that comes first owns it. -/
  | firstWins
  /-- The query fails. -/
  | reject
deriving DecidableEq, Repr, Inhabited

structure Settings where
  extent : Extent
  policy : ConflictPolicy
deriving DecidableEq, Repr, Inhabited

end FeatureAtlas
