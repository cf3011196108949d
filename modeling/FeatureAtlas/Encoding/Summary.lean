import FeatureAtlas.Json.Value
import FeatureAtlas.Store.Basic

/-!
# Ingest summaries in JSON
-/

namespace FeatureAtlas.IngestSummary

open Json (Value)

def toValue (summary : IngestSummary) : Value :=
  .object
    [("product", .text summary.product), ("version", .text summary.version),
      ("entries", .count summary.entries)]

end FeatureAtlas.IngestSummary
