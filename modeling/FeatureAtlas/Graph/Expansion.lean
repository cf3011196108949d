import FeatureAtlas.Graph.Arena
import FeatureAtlas.Graph.Relations

/-!
# Expansion

A graph grows from one member in both directions. A feature gets its node when
it is first met, before its neighbours are looked at, and only then joins the
queue; a feature with a node is never expanded again. So the growth ends on
cycles too, after at most one step for each member.
-/

namespace FeatureAtlas

/-- An arena that grows, and the positions and places that are yet to be expanded. -/
structure Growth where
  arena : Arena
  pending : List (Nat × Nat)
deriving DecidableEq, Repr

/-- The graph around one feature. -/
structure FeatureGraph where
  arena : Arena
  root : Nat
deriving DecidableEq, Repr

namespace Growth

/-- The place of the node of the member at a position, which is made and queued if it is missing. -/
def meet (relations : Relations) (growth : Growth) (position : Nat) : Growth × Nat :=
  let id := relations.idAt position
  match growth.arena.find? id with
  | some place => (growth, place)
  | none =>
    (⟨growth.arena.add id, growth.pending ++ [(position, growth.arena.size)]⟩,
      growth.arena.size)

/-- The places of the nodes of several members, met one after the other. -/
def meetAll (relations : Relations) : Growth → List Nat → Growth × List Nat
  | growth, [] => (growth, [])
  | growth, position :: rest =>
    let (growth, place) := growth.meet relations position
    let (growth, places) := meetAll relations growth rest
    (growth, place :: places)

/-- Expand the node at a place, which stands for the member at a position. -/
def expand (relations : Relations) (growth : Growth) (position place : Nat) : Growth :=
  let (growth, dependsOn) := growth.meetAll relations (relations.dependenciesAt position)
  let (growth, dependants) := growth.meetAll relations (relations.dependentsAt position)
  { growth with arena := growth.arena.connect place dependsOn dependants }

/-- Expand what is pending, for at most a number of steps. -/
def run (relations : Relations) : Nat → Growth → Growth
  | 0, growth => growth
  | steps + 1, growth =>
    match growth.pending with
    | [] => growth
    | (position, place) :: pending =>
      run relations steps (expand relations ⟨growth.arena, pending⟩ position place)

end Growth

namespace Relations

/-- Grow an arena around the member at a position, and give the place of its node. -/
def growInto (relations : Relations) (arena : Arena) (position : Nat) : Arena × Nat :=
  let (growth, place) := Growth.meet relations ⟨arena, []⟩ position
  ((growth.run relations relations.size).arena, place)

/-- The graph around a member, in both directions. -/
def graph (relations : Relations) (id : FeatureId) : Except Error FeatureGraph := do
  let position ← relations.position id
  let (arena, root) := relations.growInto .empty position
  .ok ⟨arena, root⟩

end Relations

end FeatureAtlas
