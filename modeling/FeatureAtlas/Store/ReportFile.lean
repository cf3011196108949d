import FeatureAtlas.Disk.Basic
import FeatureAtlas.Encoding.Report

/-!
# Report files

A report file holds one report in JSON.
-/

namespace FeatureAtlas.Report

def load (disk : Disk) (path : String) : Except Error Report := do
  let content ← (disk.read path).mapError .file
  (Json.readDocument reader content).mapError .json

end FeatureAtlas.Report
