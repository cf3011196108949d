import FeatureAtlas.Feature
import FeatureAtlas.Table

/-!
# Arenas

The result of a query is no tree: features share what they depend on and may
depend on each other. An arena keeps one node for each feature that was met,
in the order of meeting; nodes name their neighbours by place.
-/

namespace FeatureAtlas

/-- A feature that was met, with the places of its neighbours. -/
structure GraphNode where
  feature : FeatureId
  dependsOn : List Nat
  dependants : List Nat
deriving DecidableEq, Repr, Inhabited

/-- The nodes of one query. -/
structure Arena where
  nodes : List GraphNode
  /-- The place of the node of each feature. -/
  places : Table FeatureId Nat
deriving DecidableEq, Repr

namespace Arena

def empty : Arena :=
  ⟨[], .empty⟩

def size (arena : Arena) : Nat :=
  arena.nodes.length

def node? (arena : Arena) (place : Nat) : Option GraphNode :=
  arena.nodes[place]?

/-- The node at a place of this arena. -/
def node (arena : Arena) (place : Nat) : GraphNode :=
  (arena.node? place).getD default

def find? (arena : Arena) (feature : FeatureId) : Option Nat :=
  arena.places.get? feature

/-- The arena with a node for a feature that has none yet. -/
def add (arena : Arena) (feature : FeatureId) : Arena :=
  ⟨arena.nodes ++ [⟨feature, [], []⟩], arena.places.insert feature arena.size⟩

/-- Fill in the neighbours of the node at a place. -/
def connect (arena : Arena) (place : Nat) (dependsOn dependants : List Nat) : Arena :=
  { arena with
    nodes := arena.nodes.modify place fun node =>
      { node with dependsOn := dependsOn, dependants := dependants } }

/-- The titles of the features at places. -/
def titles (arena : Arena) (places : List Nat) : List String :=
  places.map fun place => (arena.node place).feature.title

@[simp]
theorem size_add (arena : Arena) (feature : FeatureId) :
    (arena.add feature).size = arena.size + 1 := by
  simp [add, size]

@[simp]
theorem size_connect (arena : Arena) (place : Nat) (dependsOn dependants : List Nat) :
    (arena.connect place dependsOn dependants).size = arena.size := by
  simp [connect, size]

end Arena

end FeatureAtlas
