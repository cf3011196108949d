import FeatureAtlas.Proofs.Output.Labels
import FeatureAtlas.Proofs.Output.Runs

/-!
# Text and values agree

Both renderings visit nodes, each at a depth and under a relation.  The visits
of a text are read off its entries, those of a value off the members of its
objects, in pre-order and what a feature depends on first.  The two runs give
the same visits because they mark a place as expanded at the same moment: the
stack holds exactly the places that the recursion has yet to return to.
-/

namespace FeatureAtlas.Output

open Json (Value)

/-- What a rendering shows of a node where it comes to it. -/
structure Visit where
  feature : FeatureId
  /-- The number of nodes above. -/
  depth : Nat
  /-- The relation to the node above; a root has none. -/
  relation : Option Relation
  /-- Whether the neighbours are left out, since the node was expanded before. -/
  repeated : Bool
deriving DecidableEq, Repr

/-- What an entry shows of a node of an arena. -/
def DrawnEntry.visit (arena : Arena) (drawn : DrawnEntry) : Visit where
  feature := (arena.node drawn.entry.place).feature
  depth := drawn.entry.depth
  relation := drawn.entry.relation
  repeated := drawn.repeated

/-! ## Visits in a text -/

/-- What stands behind the label of a node. -/
def marker (appearance : Appearance) (repeated : Bool) : String :=
  if repeated then " " ++ Style.dimmed.paint appearance "(see above)" else ""

/--
A line shows a visit.  In front of the feature there is the icon of a root, or
an indentation of four characters for each level and the arrow of the relation.
-/
def Shows (appearance : Appearance) (line : String) (visit : Visit) : Prop :=
  ∃ front,
    line =
        front ++ " " ++ featureText appearance visit.feature ++
          marker appearance visit.repeated ∧
      match visit.relation with
      | none =>
        visit.depth = 0 ∧
          front =
            Style.bold.paint appearance
              (Style.info.paint appearance (Glyphs.of appearance).root)
      | some relation =>
        ∃ indentation : String,
          indentation.length = 4 * visit.depth ∧
            front =
              Style.dimmed.paint appearance indentation ++
                Style.dimmed.paint appearance
                  ((Glyphs.of appearance).arrow relation)

theorem length_glyphs (appearance : Appearance) :
    (Glyphs.of appearance).branch.length = 4 ∧
      (Glyphs.of appearance).corner.length = 4 ∧
        (Glyphs.of appearance).pipe.length = 4 ∧
          (Glyphs.of appearance).space.length = 4 := by
  rw [Glyphs.of]
  split <;> decide

/-- Every level of a tree takes four characters. -/
theorem length_indentation (appearance : Appearance) (entry : Entry) :
    (indentation (Glyphs.of appearance) entry).length =
      4 * (entry.trail.length + 1) := by
  obtain ⟨branch, corner, pipe, space⟩ := length_glyphs appearance
  have trailing :
      ∀ trail : List Bool,
        ("".intercalate (trail.map fun last =>
            if last then (Glyphs.of appearance).space
            else (Glyphs.of appearance).pipe)).length =
          4 * trail.length := by
    intro trail
    induction trail with
    | nil => rfl
    | cons last rest induction =>
        rw [List.map_cons, join_cons, String.length_append, induction,
          List.length_cons]
        cases last <;> simp only [if_true, if_false, Bool.false_eq_true] <;>
          omega
  rw [indentation, String.length_append, trailing]
  split <;> omega

theorem shows_entryLine
    (appearance : Appearance) (arena : Arena) (drawn : DrawnEntry) :
    Shows appearance (entryLine appearance arena drawn)
      (drawn.visit arena) := by
  rcases drawn with ⟨⟨place, relation, trail, isLast⟩, repeated⟩
  cases relation with
  | none => exact ⟨_, rfl, rfl, rfl⟩
  | some relation =>
      refine ⟨_, rfl, _, ?_, rfl⟩
      rw [length_indentation]
      simp [DrawnEntry.visit, Entry.depth, Entry.childTrail]

/-! ## Visits in a value -/

/-- The text under a key of an object. -/
def textUnder (key : String) (members : List (String × Value)) : String :=
  match members.lookup key with
  | some (.text text) => text
  | _ => ""

/-- The feature that the members of an object name. -/
def featureOf (members : List (String × Value)) : FeatureId where
  product := textUnder "product" members
  group := textUnder "group" members
  title := textUnder "title" members
  version := textUnder "version" members

/-- Whether an object stands for a node that was expanded before. -/
def isRepeated (members : List (String × Value)) : Bool :=
  match members.lookup "expanded" with
  | some (.boolean expanded) => !expanded
  | _ => false

/-- The key of the neighbours in a relation. -/
def Relation.key : Relation → String
  | .dependsOn => "depends_on"
  | .dependant => "dependants"

mutual

/-- The visits of a value in pre-order, what a feature depends on first. -/
def visits (depth : Nat) (relation : Option Relation) : Value → List Visit
  | .object members =>
    ⟨featureOf members, depth, relation, isRepeated members⟩ ::
      (visitsUnder (depth + 1) .dependsOn members ++
        visitsUnder (depth + 1) .dependant members)
  | _ => []

/-- The visits in the neighbours that an object holds under the key of a relation. -/
def visitsUnder (depth : Nat) (relation : Relation) :
    List (String × Value) → List Visit
  | [] => []
  | (key, value) :: rest =>
    if key = relation.key then visitsWithin depth relation value
    else visitsUnder depth relation rest

/-- The visits in an array of neighbours. -/
def visitsWithin (depth : Nat) (relation : Relation) : Value → List Visit
  | .array items => visitsAll depth relation items
  | _ => []

/-- The visits of values side by side. -/
def visitsAll (depth : Nat) (relation : Relation) : List Value → List Visit
  | [] => []
  | value :: rest =>
    visits depth (some relation) value ++ visitsAll depth relation rest

end

theorem visitsAll_eq_flatMap
    (depth : Nat) (relation : Relation) (values : List Value) :
    visitsAll depth relation values =
      values.flatMap (visits depth (some relation)) := by
  induction values with
  | nil => rw [visitsAll, List.flatMap_nil]
  | cons value rest induction =>
      rw [visitsAll, induction, List.flatMap_cons]

theorem visits_repeatedValue
    (depth : Nat) (relation : Option Relation) (id : FeatureId) :
    visits depth relation (repeatedValue id) = [⟨id, depth, relation, true⟩] := by
  simp [visits, repeatedValue, featureMembers, visitsUnder, Relation.key,
    featureOf, textUnder, isRepeated, List.lookup_cons]

theorem visits_expandedValue
    (depth : Nat) (relation : Option Relation) (id : FeatureId)
    (dependsOn dependants : List Value) :
    visits depth relation (expandedValue id dependsOn dependants) =
      ⟨id, depth, relation, false⟩ ::
        (dependsOn.flatMap (visits (depth + 1) (some .dependsOn)) ++
          dependants.flatMap (visits (depth + 1) (some .dependant))) := by
  simp [visits, expandedValue, featureMembers, visitsUnder, Relation.key,
    visitsWithin, visitsAll_eq_flatMap, featureOf, textUnder, isRepeated,
    List.lookup_cons]

/-! ## One traversal -/

/-- The children of an entry are cut in two where the relation changes. -/
theorem Entry.exists_children_split (arena : Arena) (entry : Entry) :
    ∃ first second,
      entry.children arena = first ++ second ∧
        first.map link =
            (arena.node entry.place).dependsOn.map
              (some Relation.dependsOn, ·) ∧
          second.map link =
            (arena.node entry.place).dependants.map
              (some Relation.dependant, ·) := by
  refine List.map_eq_append_iff.mp ?_
  rw [children_eq, map_link_siblings, neighboursAt, List.map_append,
    List.map_map, List.map_map]
  rfl

/-- What is written of places is drawn of entries for them, visit by visit. -/
theorem Writes.draws
    {arena : Arena} {expanded final places : List Nat}
    {values : List Value}
    (writes : Writes arena expanded places values final)
    {depth : Nat} {relation : Option Relation} {entries : List Entry}
    (links : entries.map Entry.link = places.map (relation, ·))
    (level : ∀ entry ∈ entries, entry.depth = depth) :
    ∃ drawn,
      Draws arena expanded entries drawn final ∧
        drawn.map (·.visit arena) =
          values.flatMap (visits depth relation) := by
  induction writes generalizing depth relation entries with
  | done expanded =>
      obtain rfl := List.map_eq_nil_iff.mp links
      exact ⟨[], .done expanded, rfl⟩
  | again expanded final place places values seen _ induction =>
      obtain ⟨entry, others, rfl, here, linksLater⟩ :=
        List.map_eq_cons_iff.mp links
      obtain ⟨rfl, rfl⟩ := Prod.mk.inj here
      obtain ⟨drawn, draws, same⟩ :=
        induction linksLater
          fun other member => level other (by simp [member])
      refine ⟨_, .again _ _ entry others drawn seen draws, ?_⟩
      rw [List.map_cons, same, List.flatMap_cons, visits_repeatedValue,
        ← level entry (by simp)]
      rfl
  | fresh expanded forward backward final place places dependsOn dependants
      values new _ _ _ below above rest =>
      obtain ⟨entry, others, rfl, here, linksLater⟩ :=
        List.map_eq_cons_iff.mp links
      obtain ⟨rfl, rfl⟩ := Prod.mk.inj here
      obtain ⟨first, second, split, firstLinks, secondLinks⟩ :=
        entry.exists_children_split arena
      have deeper :
          ∀ child ∈ first ++ second, child.depth = depth + 1 := by
        intro child member
        rw [← split] at member
        rw [Entry.depth_of_mem_children member, level entry (by simp)]
      obtain ⟨drawnFirst, drawsFirst, sameFirst⟩ :=
        below firstLinks fun child member => deeper child (by simp [member])
      obtain ⟨drawnSecond, drawsSecond, sameSecond⟩ :=
        above secondLinks fun child member => deeper child (by simp [member])
      obtain ⟨drawn, draws, same⟩ :=
        rest linksLater fun other member => level other (by simp [member])
      refine
        ⟨⟨entry, false⟩ :: (drawnFirst ++ drawnSecond ++ drawn),
          .fresh _ _ entry others _ new ?_, ?_⟩
      · rw [split]
        exact (drawsFirst.append drawsSecond).append draws
      · rw [List.map_cons, List.map_append, List.map_append, sameFirst,
          sameSecond, same, List.flatMap_cons, visits_expandedValue,
          ← level entry (by simp)]
        rfl

/-- The first value is written before the others. -/
theorem Writes.uncons
    {arena : Arena} {expanded final places : List Nat} {place : Nat}
    {values : List Value}
    (writes : Writes arena expanded (place :: places) values final) :
    ∃ value later middle,
      values = value :: later ∧
        Writes arena expanded [place] [value] middle ∧
          Writes arena middle places later final := by
  cases writes with
  | again _ _ _ _ later seen rest =>
      exact
        ⟨_, later, expanded, rfl,
          .again _ _ place [] [] seen (.done expanded), rest⟩
  | fresh _ forward backward _ _ _ dependsOn dependants later new below
      above rest =>
      exact
        ⟨_, later, backward, rfl,
          .fresh _ forward backward _ place [] _ _ [] new below above
            (.done backward),
          rest⟩

/-- The trees of a forest are drawn as they are written. -/
theorem Writes.draws_forest
    {arena : Arena} {expanded final roots : List Nat}
    {values : List Value}
    (writes : Writes arena expanded roots values final) :
    (forestEntries arena expanded roots).map
          (·.map (·.visit arena)) =
        values.map (visits 0 none) ∧
      Draws arena expanded (roots.map .root)
        (forestEntries arena expanded roots).flatten final := by
  induction roots generalizing expanded values with
  | nil =>
      cases writes
      exact ⟨rfl, .done _⟩
  | cons root roots induction =>
      obtain ⟨value, later, middle, rfl, first, rest⟩ := writes.uncons
      have alone :
          [Entry.root root].map Entry.link = [root].map (none, ·) := rfl
      obtain ⟨drawn, draws, same⟩ :=
        first.draws alone fun entry member => by
          rw [List.mem_singleton.mp member, Entry.depth_root]
      obtain ⟨sameLater, drawsLater⟩ := induction rest
      have tree := draws.drawRoot_eq []
      rw [List.nil_append] at tree
      rw [forestEntries, tree]
      refine ⟨?_, draws.append drawsLater⟩
      rw [List.map_cons, List.map_cons, same, sameLater,
        List.flatMap_singleton]

/-- The trees in the value of a forest. -/
def trees : Value → List Value
  | .array items => items
  | _ => []

theorem writes_graphValue (graph : FeatureGraph) :
    ∃ final,
      Writes graph.arena [] [graph.root] [graphValue graph] final :=
  ⟨_, writes_of_size graph.arena [graph.root]⟩

theorem writes_forestValue (forest : Forest) :
    ∃ final,
      Writes forest.arena [] forest.roots (trees (forestValue forest))
        final :=
  ⟨_, writes_of_size forest.arena forest.roots⟩

/-- A text that is drawn of trees says the same as the values of the trees. -/
structure Agree
    (appearance : Appearance) (arena : Arena)
    (drawn : List (List DrawnEntry)) (text : String) (values : List Value) :
    Prop where
  text :
    text =
      "\n".intercalate
        (drawn.map fun entries =>
          unlines (entries.map (entryLine appearance arena)))
  lines :
    ∀ entries ∈ drawn, ∀ entry ∈ entries,
      Shows appearance (entryLine appearance arena entry)
        (entry.visit arena)
  visits :
    drawn.map (·.map (·.visit arena)) = values.map (Output.visits 0 none)

/--
A graph as text and as a value show the same features in the same order, at
the same depths and under the same relations, and mark the same nodes as seen
above; so do the trees of a forest, one after the other.
-/
theorem text_agrees_with_value
    (appearance : Appearance) (graph : FeatureGraph) (forest : Forest) :
    Agree appearance graph.arena [graphEntries graph]
        (graphText appearance graph) [graphValue graph] ∧
      Agree appearance forest.arena
        (forestEntries forest.arena [] forest.roots)
        (forestText appearance forest) (trees (forestValue forest)) := by
  obtain ⟨_, graphWrites⟩ := writes_graphValue graph
  obtain ⟨_, forestWrites⟩ := writes_forestValue forest
  constructor
  · refine ⟨?_, ?_, graphWrites.draws_forest.1⟩
    · rw [List.map_singleton, String.intercalate_singleton]
      rfl
    · exact fun _ _ entry _ => shows_entryLine appearance graph.arena entry
  · refine ⟨rfl, ?_, forestWrites.draws_forest.1⟩
    exact fun _ _ entry _ => shows_entryLine appearance forest.arena entry

end FeatureAtlas.Output
