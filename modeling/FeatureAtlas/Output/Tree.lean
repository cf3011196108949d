import FeatureAtlas.Graph.Forest
import FeatureAtlas.Output.Style

/-!
# Graphs as text

A graph is drawn as a tree. A node that was drawn with its neighbours before is
marked and not expanded again. Nodes come in pre-order, what a feature depends
on before what depends on it.
-/

namespace FeatureAtlas.Output

/-- How a node of a tree stands to the one above it. -/
inductive Relation
  | dependsOn
  | dependant
deriving DecidableEq, Repr

/-- A line of a tree. -/
structure Entry where
  place : Nat
  /-- The relation to the node above; a root has none. -/
  relation : Option Relation
  /-- For each level between the root and the node, whether the line there is the last one. -/
  trail : List Bool
  /-- Whether no other child of the same node follows. -/
  isLast : Bool
deriving DecidableEq, Repr

/-- An entry with whether its node was expanded before. -/
structure DrawnEntry where
  entry : Entry
  repeated : Bool
deriving DecidableEq, Repr

namespace Entry

def root (place : Nat) : Entry :=
  ⟨place, none, [], true⟩

/-- The trail of the entries below an entry. -/
def childTrail (entry : Entry) : List Bool :=
  if entry.relation.isNone then [] else entry.trail ++ [entry.isLast]

/-- Entries side by side; the last of them is marked. -/
def siblings (trail : List Bool) : List (Relation × Nat) → List Entry
  | [] => []
  | (relation, place) :: rest =>
    ⟨place, some relation, trail, rest.isEmpty⟩ :: siblings trail rest

/-- The entries below an entry. -/
def children (arena : Arena) (entry : Entry) : List Entry :=
  let node := arena.node entry.place
  siblings entry.childTrail <|
    node.dependsOn.map (Relation.dependsOn, ·) ++ node.dependants.map (Relation.dependant, ·)

end Entry

/-- What was drawn, with the places that have been expanded. -/
structure Drawing where
  entries : List DrawnEntry
  expanded : List Nat
deriving DecidableEq, Repr

namespace Drawing

def empty : Drawing :=
  ⟨[], []⟩

/-- Add the next entry. -/
def add (drawing : Drawing) (entry : Entry) (repeated : Bool) : Drawing where
  entries := drawing.entries ++ [⟨entry, repeated⟩]
  expanded := if repeated then drawing.expanded else drawing.expanded ++ [entry.place]

/-- Draw the entries of a stack and what is below them, for at most a number of entries. -/
def draw (arena : Arena) : Nat → Drawing → List Entry → Drawing
  | 0, drawing, _ => drawing
  | _ + 1, drawing, [] => drawing
  | count + 1, drawing, entry :: stack =>
    if entry.place ∈ drawing.expanded then
      draw arena count (drawing.add entry true) stack
    else
      draw arena count (drawing.add entry false) (entry.children arena ++ stack)

/-- The number of neighbours that the nodes of an arena have. -/
def neighbours (arena : Arena) : Nat :=
  arena.nodes.foldr
    (fun node total => node.dependsOn.length + node.dependants.length + total) 0

/-- Draw the tree of a root after what was drawn before. -/
def drawRoot (arena : Arena) (drawing : Drawing) (root : Nat) : Drawing :=
  draw arena (neighbours arena + 1) drawing [.root root]

end Drawing

/-- The characters that trees are drawn with. -/
structure Glyphs where
  root : String
  branch : String
  corner : String
  pipe : String
  space : String
  dependsOn : String
  dependant : String

def Glyphs.of (appearance : Appearance) : Glyphs :=
  if appearance.ascii then
    { root := "*", branch := "|-- ", corner := "`-- ", pipe := "|   ", space := "    "
      dependsOn := "->", dependant := "<-" }
  else
    { root := "◆", branch := "├── ", corner := "└── ", pipe := "│   ", space := "    "
      dependsOn := "→", dependant := "←" }

def Glyphs.arrow (glyphs : Glyphs) : Relation → String
  | .dependsOn => glyphs.dependsOn
  | .dependant => glyphs.dependant

/-- What stands in front of the arrow of an entry. -/
def indentation (glyphs : Glyphs) (entry : Entry) : String :=
  "".intercalate (entry.trail.map fun last => if last then glyphs.space else glyphs.pipe) ++
    if entry.isLast then glyphs.corner else glyphs.branch

def entryLine (appearance : Appearance) (arena : Arena) (drawn : DrawnEntry) : String :=
  let glyphs := Glyphs.of appearance
  let label := featureText appearance (arena.node drawn.entry.place).feature
  let marker := if drawn.repeated then " " ++ Style.dimmed.paint appearance "(see above)" else ""
  match drawn.entry.relation with
  | none =>
    Style.bold.paint appearance (Style.info.paint appearance glyphs.root) ++ " " ++
      label ++ marker
  | some relation =>
    Style.dimmed.paint appearance (indentation glyphs drawn.entry) ++
      Style.dimmed.paint appearance (glyphs.arrow relation) ++ " " ++ label ++ marker

def graphEntries (graph : FeatureGraph) : List DrawnEntry :=
  (Drawing.empty.drawRoot graph.arena graph.root).entries

def graphText (appearance : Appearance) (graph : FeatureGraph) : String :=
  unlines ((graphEntries graph).map (entryLine appearance graph.arena))

/-- The entries of each tree of a forest; trees share what has been expanded. -/
def forestEntries (arena : Arena) : List Nat → List Nat → List (List DrawnEntry)
  | _, [] => []
  | expanded, root :: roots =>
    let drawing := Drawing.drawRoot arena ⟨[], expanded⟩ root
    drawing.entries :: forestEntries arena drawing.expanded roots

/-- A forest as text, with an empty line between trees. -/
def forestText (appearance : Appearance) (forest : Forest) : String :=
  "\n".intercalate <|
    (forestEntries forest.arena [] forest.roots).map fun entries =>
      unlines (entries.map (entryLine appearance forest.arena))

end FeatureAtlas.Output
