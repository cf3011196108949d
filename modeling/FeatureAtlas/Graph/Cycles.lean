import FeatureAtlas.Graph.Relations
import FeatureAtlas.Sorting

/-!
# Cycles

Members that depend on each other, directly or through others, form a cycle.
A cycle is found once, at its first member; its members are in catalog order.
A search for strongly connected components may be used as well: its components
are then put in order.
-/

namespace FeatureAtlas

/-- Features that all depend on each other; there are at least two. -/
structure Cycle where
  members : List FeatureId
deriving DecidableEq, Repr

namespace Relations

/-- Note positions that were not found before, both as found and as pending. -/
def discover (state : List Nat × List Nat) (position : Nat) : List Nat × List Nat :=
  if position ∈ state.1 then state else (state.1 ++ [position], state.2 ++ [position])

/-- Follow the dependencies of pending positions, for at most a number of steps. -/
def search (relations : Relations) : Nat → List Nat × List Nat → List Nat
  | 0, (found, _) => found
  | _ + 1, (found, []) => found
  | steps + 1, (found, position :: pending) =>
    search relations steps
      ((relations.dependenciesAt position).foldl discover (found, pending))

/-- The positions that can be reached from a position by one dependency or more. -/
def reachable (relations : Relations) (position : Nat) : List Nat :=
  relations.search (relations.size + 1) ([], [position])

/-- The members that depend on the member at a position and that it depends on, itself included. -/
def classAt (relations : Relations) (reached : List (List Nat)) (position : Nat) : List Nat :=
  (List.range relations.size).filter fun other =>
    other = position ∨
      (other ∈ reached[position]?.getD [] ∧ position ∈ reached[other]?.getD [])

/-- The cycle whose first member is at a position. -/
def cycleAt? (relations : Relations) (reached : List (List Nat)) (position : Nat) :
    Option Cycle :=
  let positions := relations.classAt reached position
  if positions.head? = some position ∧ 2 ≤ positions.length then
    some ⟨positions.map relations.idAt⟩
  else none

/-- All cycles, by their first members. -/
def cycles (relations : Relations) : List Cycle :=
  let reached := (List.range relations.size).map relations.reachable
  (List.range relations.size).filterMap (relations.cycleAt? reached)

end Relations

/-! ## Cycles by a search for components -/

/-- A number of nodes and the edges between them. -/
structure Digraph where
  size : Nat
  edges : List (Nat × Nat)
deriving DecidableEq, Repr

namespace Relations

/-- The digraph with an edge from each member to each one that it depends on. -/
def digraph (relations : Relations) : Digraph where
  size := relations.size
  edges :=
    (List.range relations.size).flatMap fun position =>
      (relations.dependenciesAt position).map (position, ·)

def ascends (left right : Nat) : Bool :=
  left ≤ right

/-- Groups of positions are in order if their first positions are. -/
def startsBefore (left right : List Nat) : Bool :=
  left.headD 0 ≤ right.headD 0

/-- The cycles among the components that a search finds, in whatever order it lists them. -/
def cyclesBy (search : Digraph → List (List Nat)) (relations : Relations) : List Cycle :=
  let several := (search relations.digraph).filter fun component => 1 < component.length
  let groups := several.map (Sorting.sortBy ascends)
  (Sorting.sortBy startsBefore groups).map fun positions => ⟨positions.map relations.idAt⟩

end Relations

end FeatureAtlas
