import FeatureAtlas.Graph.Forest
import FeatureAtlas.Json.Value

/-!
# Graphs as JSON

A node is an object that holds the objects of its neighbours, unless the node
was written with its neighbours before. Members are sorted by key.
-/

namespace FeatureAtlas.Output

open Json (Value)

/-- Apply a function with a state to each element. -/
def mapWith {σ α β : Type} (function : σ → α → β × σ) : σ → List α → List β × σ
  | state, [] => ([], state)
  | state, head :: rest =>
    let (value, state) := function state head
    let (values, state) := mapWith function state rest
    (value :: values, state)

/-- The members that name a feature. -/
def featureMembers (id : FeatureId) : List (String × Value) :=
  [("group", .text id.group), ("product", .text id.product), ("title", .text id.title),
    ("version", .text id.version)]

def repeatedValue (id : FeatureId) : Value :=
  .object (("expanded", .boolean false) :: featureMembers id)

/-- The object of a node with the objects of its neighbours. -/
def expandedValue (id : FeatureId) (dependsOn dependants : List Value) : Value :=
  .object <|
    [("dependants", .array dependants), ("depends_on", .array dependsOn),
      ("expanded", .boolean true)] ++ featureMembers id

/-- The object of a node, given the places that have been expanded, for at most a depth. -/
def nodeValue (arena : Arena) : Nat → List Nat → Nat → Value × List Nat
  | 0, expanded, place => (repeatedValue (arena.node place).feature, expanded)
  | depth + 1, expanded, place =>
    let node := arena.node place
    if place ∈ expanded then (repeatedValue node.feature, expanded)
    else
      let expanded := expanded ++ [place]
      let (dependsOn, expanded) := mapWith (nodeValue arena depth) expanded node.dependsOn
      let (dependants, expanded) := mapWith (nodeValue arena depth) expanded node.dependants
      (expandedValue node.feature dependsOn dependants, expanded)

def graphValue (graph : FeatureGraph) : Value :=
  (nodeValue graph.arena (graph.arena.size + 1) [] graph.root).1

/-- A forest as a value; its trees share what has been expanded. -/
def forestValue (forest : Forest) : Value :=
  .array (mapWith (nodeValue forest.arena (forest.arena.size + 1)) [] forest.roots).1

end FeatureAtlas.Output
