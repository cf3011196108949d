import FeatureAtlas.Main
import FeatureAtlas.Proofs.CommandLine.Effects
import FeatureAtlas.Proofs.Encoding.Spellings
import FeatureAtlas.Proofs.Graph.BreadthFirst
import FeatureAtlas.Proofs.Graph.Conflicts
import FeatureAtlas.Proofs.Graph.CycleReport
import FeatureAtlas.Proofs.Graph.Cycles
import FeatureAtlas.Proofs.Graph.Forest
import FeatureAtlas.Proofs.Graph.Registration
import FeatureAtlas.Proofs.Jsonl.Atomicity
import FeatureAtlas.Proofs.Jsonl.Endings
import FeatureAtlas.Proofs.Jsonl.Locality
import FeatureAtlas.Proofs.Jsonl.WriteRead
import FeatureAtlas.Proofs.Lookups.Drawing
import FeatureAtlas.Proofs.Output.Colors
import FeatureAtlas.Proofs.Output.Coverage
import FeatureAtlas.Proofs.Output.Shape
import FeatureAtlas.Proofs.Query.EmptyForests
import FeatureAtlas.Proofs.Query.Isolation
import FeatureAtlas.Proofs.Query.MoreCalls
import FeatureAtlas.Proofs.Query.Policies
import FeatureAtlas.Proofs.Query.Precedence
import FeatureAtlas.Proofs.Query.Releases
import FeatureAtlas.Proofs.Report.Height
import FeatureAtlas.Proofs.Repository.Search
import FeatureAtlas.Proofs.Repository.Survival
import FeatureAtlas.Proofs.Store.Canonical
import FeatureAtlas.Proofs.Store.Consistency
import FeatureAtlas.Proofs.Store.FailedSave
import FeatureAtlas.Proofs.Store.Ingestion
import FeatureAtlas.Proofs.Store.LoadReport
import FeatureAtlas.Proofs.Store.Merging
import FeatureAtlas.Proofs.Store.SaveLoad
import FeatureAtlas.Proofs.Repository.Ancestors
