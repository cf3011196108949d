import FeatureAtlas.Error
import FeatureAtlas.Ledger
import FeatureAtlas.Settings

/-!
# Backends

Queries read features and ledgers from a backend, which may fail.
-/

namespace FeatureAtlas

/-- Where queries get features and ledgers from. -/
structure Backend where
  /-- The features that pass optional filters on product and version, in catalog order. -/
  listFeatures : Option String → Option String → Except Error (List Feature)
  /-- The ledger of a scope; an unknown scope has an empty one. -/
  invocations : Scope → Except Error Ledger

end FeatureAtlas
