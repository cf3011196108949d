import FeatureAtlas.Settings
import FeatureAtlas.Store.Files

/-!
# The configuration of a repository

A configuration says where the two data files are, seen from the directory of
the repository, and what the settings of its queries are.
-/

namespace FeatureAtlas

/-- Where the data files of a repository are and how queries on it work. -/
structure Configuration where
  features : String
  invocations : String
  extent : Extent
  policy : ConflictPolicy
deriving DecidableEq, Repr, Inhabited

namespace Configuration

/-- The configuration of a new repository. -/
def standard : Configuration where
  features := ".trellis/features.jsonl"
  invocations := ".trellis/invocations.jsonl"
  extent := .all
  policy := .firstWins

/-- The paths of the data files of a repository at a root. -/
def paths (configuration : Configuration) (root : String) : DataPaths where
  features := Path.join root configuration.features
  invocations := Path.join root configuration.invocations

def settings (configuration : Configuration) : Settings :=
  ⟨configuration.extent, configuration.policy⟩

end Configuration

end FeatureAtlas
