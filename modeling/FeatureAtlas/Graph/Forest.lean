import FeatureAtlas.Graph.Expansion
import FeatureAtlas.Sorting

/-!
# Forests

The graphs of all roots of several scopes share one arena. Roots come in
catalog order; a root that an earlier one has brought in keeps its node.
-/

namespace FeatureAtlas

/-- The graphs of all roots. -/
structure Forest where
  arena : Arena
  roots : List Nat
deriving DecidableEq, Repr

/-- A root of one of several scopes, by its position there. -/
structure ScopeRoot where
  relations : Relations
  position : Nat

namespace ScopeRoot

def place (root : ScopeRoot) : Nat :=
  root.relations.placeAt root.position

/-- Roots are in order if their places are. -/
def precedes (left right : ScopeRoot) : Bool :=
  left.place ≤ right.place

end ScopeRoot

namespace Forest

def empty : Forest :=
  ⟨.empty, []⟩

/-- Add the graph of a root. -/
def grow (forest : Forest) (root : ScopeRoot) : Forest :=
  let (arena, place) := root.relations.growInto forest.arena root.position
  ⟨arena, forest.roots ++ [place]⟩

/-- The roots of several scopes in catalog order. -/
def rootsOf (scopes : List Relations) : List ScopeRoot :=
  Sorting.sortBy ScopeRoot.precedes <|
    scopes.flatMap fun relations => relations.rootPositions.map (⟨relations, ·⟩)

/-- The graphs of all roots of several scopes. -/
def ofScopes (scopes : List Relations) : Forest :=
  (rootsOf scopes).foldl grow empty

end Forest

end FeatureAtlas
