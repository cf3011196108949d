import FeatureAtlas.Proofs.Output.Agreement
import FeatureAtlas.Proofs.Output.Trees

/-!
# The trees that an arena unfolds to

What a run draws of its stack is read as trees, in which each node has its
neighbours below it.  The run puts the trail of an entry together when it
pushes the entry; here it is found again on the path to the node, one flag for
each step, which says whether the step leads to the last child.  What is drawn
a second time is a leaf.
-/

namespace FeatureAtlas.Output

/-! ## The trees of a run -/

namespace Tree

/-- The children of a node as an arena lists neighbours. -/
def links (tree : Tree) : List (Relation × Nat) :=
  tree.children.map fun child => (child.1, child.2.place)

/-- Each node of a tree has its neighbours below it, or nothing if it is a repetition. -/
def Faithful (arena : Arena) (tree : Tree) : Prop :=
  ∀ path node,
    tree.at? path = some node →
      node.links = if node.repeated then [] else neighboursAt arena node.place

/-- A tree is faithful if its root is and what stands below it. -/
theorem Faithful.of_children
    {arena : Arena} {tree : Tree}
    (root :
      tree.links =
        if tree.repeated then [] else neighboursAt arena tree.place)
    (below : ∀ child ∈ tree.children, child.2.Faithful arena) :
    tree.Faithful arena := by
  intro path node found
  cases path with
  | nil =>
      obtain rfl := Option.some.inj found
      exact root
  | cons step path =>
      obtain ⟨relation, child, listed, there⟩ := exists_child_of_at?_cons found
      exact below _ (List.mem_of_getElem? listed) path node there

mutual

/-- The entries of a tree whose root has a relation, a trail and a side. -/
def drawn (relation : Option Relation) (trail : List Bool) (isLast : Bool) :
    Tree → List DrawnEntry
  | node place repeated children =>
    let entry : Entry := ⟨place, relation, trail, isLast⟩
    ⟨entry, repeated⟩ :: drawnAll entry.childTrail children

/-- The entries of trees side by side. -/
def drawnAll (trail : List Bool) : List (Relation × Tree) → List DrawnEntry
  | [] => []
  | (relation, tree) :: rest =>
    tree.drawn (some relation) trail rest.isEmpty ++ drawnAll trail rest

end

/-- The entries of trees whose roots are drawn as the entries of a stack. -/
def drawnOf : List Entry → List Tree → List DrawnEntry
  | entry :: stack, tree :: trees =>
    tree.drawn entry.relation entry.trail entry.isLast ++ drawnOf stack trees
  | _, _ => []

theorem drawnOf_append
    {first second : List Entry} {trees later : List Tree}
    (places : trees.map (·.place) = first.map (·.place)) :
    drawnOf (first ++ second) (trees ++ later) =
      drawnOf first trees ++ drawnOf second later := by
  induction first generalizing trees with
  | nil =>
      obtain rfl := List.map_eq_nil_iff.mp places
      rfl
  | cons entry first induction =>
      obtain ⟨tree, others, rfl, -, rest⟩ := List.map_eq_cons_iff.mp places
      rw [List.cons_append, List.cons_append, drawnOf, drawnOf,
        induction rest, List.append_assoc]

/-- Neighbours with the trees that are drawn of them. -/
def graft : List (Relation × Nat) → List Tree → List (Relation × Tree)
  | neighbour :: neighbours, tree :: trees =>
    (neighbour.1, tree) :: graft neighbours trees
  | _, _ => []

section Graft

variable {neighbours : List (Relation × Nat)} {trees : List Tree}

theorem map_graft (places : trees.map (·.place) = neighbours.map (·.2)) :
    (graft neighbours trees).map (fun child => (child.1, child.2.place)) =
        neighbours ∧
      (graft neighbours trees).map (·.2) = trees := by
  induction neighbours generalizing trees with
  | nil =>
      obtain rfl := List.map_eq_nil_iff.mp places
      exact ⟨rfl, rfl⟩
  | cons neighbour neighbours induction =>
      obtain ⟨tree, others, rfl, here, rest⟩ := List.map_eq_cons_iff.mp places
      obtain ⟨links, same⟩ := induction rest
      have first : (neighbour.1, tree.place) = neighbour := by rw [here]
      rw [graft, List.map_cons, List.map_cons, links, same, first]
      exact ⟨rfl, rfl⟩

/-- The trees below a node are drawn as its children are. -/
theorem drawnAll_graft
    (places : trees.map (·.place) = neighbours.map (·.2))
    (trail : List Bool) :
    drawnAll trail (graft neighbours trees) =
      drawnOf (Entry.siblings trail neighbours) trees := by
  induction neighbours generalizing trees with
  | nil => cases trees <;> rfl
  | cons neighbour neighbours induction =>
      obtain ⟨tree, others, rfl, -, rest⟩ := List.map_eq_cons_iff.mp places
      have ends : (graft neighbours others).isEmpty = neighbours.isEmpty := by
        simpa using congrArg List.isEmpty (map_graft rest).1
      rw [graft, drawnAll, ends, induction rest]
      rfl

end Graft

end Tree

/-- What is drawn of a stack is drawn of trees, one for each entry. -/
theorem Draws.exists_trees
    {arena : Arena} {expanded final : List Nat} {stack : List Entry}
    {drawn : List DrawnEntry}
    (draws : Draws arena expanded stack drawn final) :
    ∃ trees : List Tree,
      trees.map (·.place) = stack.map (·.place) ∧
        (∀ tree ∈ trees, tree.Faithful arena) ∧
          drawn = Tree.drawnOf stack trees := by
  induction draws with
  | done => exact ⟨[], rfl, by simp, rfl⟩
  | again expanded final entry stack drawn _ _ induction =>
      obtain ⟨trees, places, faithful, rfl⟩ := induction
      refine ⟨.node entry.place true [] :: trees, ?_, ?_, ?_⟩
      · rw [List.map_cons, List.map_cons, places]
        rfl
      · refine List.forall_mem_cons.mpr ⟨?_, faithful⟩
        exact .of_children rfl (List.forall_mem_nil _)
      · rw [Tree.drawnOf, Tree.drawn, Tree.drawnAll]
        rfl
  | fresh expanded final entry stack drawn _ _ induction =>
      obtain ⟨all, places, faithful, rfl⟩ := induction
      rw [List.map_append] at places
      obtain ⟨trees, later, rfl, below, others⟩ :=
        List.map_eq_append_iff.mp places
      obtain ⟨faithfulBelow, faithfulLater⟩ :=
        List.forall_mem_append.mp faithful
      have listed :
          trees.map (·.place) =
            (neighboursAt arena entry.place).map (·.2) := by
        have reached :=
          congrArg (·.map Prod.snd)
            (Entry.map_link_siblings entry.childTrail
              (neighboursAt arena entry.place))
        rw [below, Entry.children_eq]
        simpa [Entry.link, Function.comp_def] using reached
      obtain ⟨links, same⟩ := Tree.map_graft listed
      refine
        ⟨.node entry.place false
            (Tree.graft (neighboursAt arena entry.place) trees) :: later,
          ?_, ?_, ?_⟩
      · rw [List.map_cons, List.map_cons, others]
        rfl
      · refine List.forall_mem_cons.mpr ⟨?_, faithfulLater⟩
        refine .of_children links fun child member => ?_
        refine faithfulBelow child.2 ?_
        rw [← same]
        exact List.mem_map_of_mem member
      · rw [Tree.drawnOf_append below, Tree.drawnOf, Tree.drawn,
          Tree.drawnAll_graft listed]
        rfl

/-! ## Trails and paths -/

/-- The entry of a stop, given for each step to it whether that leads to a last child. -/
def Stop.entry (flags : List Bool) (stop : Stop) : DrawnEntry where
  entry :=
    { place := stop.node.place
      relation := stop.relation
      trail := flags.dropLast
      isLast := flags.getLastD true }
  repeated := stop.node.repeated

namespace Tree

mutual

/-- The trail of an entry says of each step on the path whether it leads to a last child. -/
theorem drawn_eq_map
    (relation : Relation) (trail : List Bool) (isLast : Bool) :
    ∀ tree : Tree,
      tree.drawn (some relation) trail isLast =
        (tree.walk (some relation)).map fun stop =>
          stop.entry (trail ++ isLast :: tree.lasts stop.path)
  | node place repeated children => by
      have below :=
        drawnAll_eq_map (trail ++ [isLast]) (node place repeated children) []
          children rfl
      have root :
          Stop.entry (trail ++ [isLast])
              ⟨[], some relation, node place repeated children⟩ =
            ⟨⟨place, some relation, trail, isLast⟩, repeated⟩ := by
        simp [Stop.entry, Tree.place, Tree.repeated, List.getLastD_eq_getLast?]
      simp only [List.append_assoc, List.singleton_append] at below
      rw [drawn, walk, List.map_cons, lasts, root]
      exact congrArg _ below

/-- The steps to trees side by side begin where the earlier children of their parent end. -/
theorem drawnAll_eq_map (trail : List Bool) (parent : Tree) :
    ∀ front rest,
      parent.children = front ++ rest →
        drawnAll trail rest =
          (walkAll front.length rest).map fun stop =>
            stop.entry (trail ++ parent.lasts stop.path)
  | front, [], _ => rfl
  | front, (relation, tree) :: rest, children => by
      have listed :
          parent.children[front.length]? = some (relation, tree) := by
        rw [children, List.getElem?_append_right (Nat.le_refl _), Nat.sub_self]
        rfl
      have ends :
          (front.length + 1 == parent.children.length) = rest.isEmpty := by
        cases rest <;> simp [children]
      have others :=
        drawnAll_eq_map trail parent (front ++ [(relation, tree)]) rest
          (by rw [children, List.append_assoc, List.singleton_append])
      rw [List.length_append, List.length_singleton] at others
      rw [drawnAll, walkAll, List.map_append, others,
        drawn_eq_map relation trail rest.isEmpty tree, List.map_map]
      congr 1
      refine List.map_congr_left fun stop _ => ?_
      rw [Function.comp_apply, Stop.under, lasts_cons listed, ends]
      rfl

end

/-- The root has no trail, and so there is none in front of what stands below it. -/
theorem drawn_root_eq_map (tree : Tree) :
    tree.drawn none [] true =
      (tree.walk none).map fun stop => stop.entry (tree.lasts stop.path) := by
  obtain ⟨place, repeated, children⟩ := tree
  have below :=
    drawnAll_eq_map [] (node place repeated children) [] children rfl
  rw [drawn, walk, List.map_cons]
  exact congrArg _ below

end Tree

/-- The trees of a forest are drawn one by one. -/
theorem Writes.exists_forest
    {arena : Arena} {expanded final roots : List Nat}
    {values : List Json.Value}
    (writes : Writes arena expanded roots values final) :
    ∃ trees : List Tree,
      trees.map (·.place) = roots ∧
        (∀ tree ∈ trees, tree.Faithful arena) ∧
          forestEntries arena expanded roots =
            trees.map (Tree.drawn none [] true) := by
  induction roots generalizing expanded values with
  | nil => exact ⟨[], rfl, by simp, rfl⟩
  | cons root roots induction =>
      obtain ⟨value, later, middle, rfl, first, rest⟩ := writes.uncons
      have alone :
          [Entry.root root].map Entry.link = [root].map (none, ·) := rfl
      obtain ⟨drawn, draws, -⟩ :=
        first.draws alone fun entry member => by
          rw [List.mem_singleton.mp member, Entry.depth_root]
      obtain ⟨single, here, faithful, rfl⟩ := draws.exists_trees
      obtain ⟨tree, rfl, place⟩ := List.map_eq_singleton_iff.mp here
      obtain ⟨trees, places, others, same⟩ := induction rest
      have started := draws.drawRoot_eq []
      refine ⟨tree :: trees, ?_, ?_, ?_⟩
      · rw [List.map_cons, places, place]
        rfl
      · exact List.forall_mem_cons.mpr ⟨faithful tree (by simp), others⟩
      · rw [forestEntries, started, List.map_cons, ← same]
        simp [Tree.drawnOf, Entry.root]

/-! ## Repetitions -/

/-- The place of an entry, and whether it is marked. -/
def DrawnEntry.mark (drawn : DrawnEntry) : Nat × Bool :=
  (drawn.entry.place, drawn.repeated)

def Stop.mark (stop : Stop) : Nat × Bool :=
  (stop.node.place, stop.node.repeated)

/-- An entry is marked if its place was expanded before or drawn further up. -/
theorem Draws.repeated_iff
    {arena : Arena} {expanded final : List Nat} {stack : List Entry}
    {drawn : List DrawnEntry}
    (draws : Draws arena expanded stack drawn final)
    {before after : List (Nat × Bool)} {place : Nat} {repeated : Bool}
    (split :
      drawn.map (·.mark) = before ++ (place, repeated) :: after) :
    repeated = true ↔ place ∈ expanded ∨ place ∈ before.map (·.1) := by
  induction draws generalizing before with
  | done => simp at split
  | again expanded final entry stack drawn seen _ induction =>
      rcases List.cons_eq_append_iff.mp split with
        ⟨rfl, here⟩ | ⟨others, rfl, rest⟩
      · obtain ⟨rfl, rfl⟩ := Prod.mk.inj (List.cons.inj here).1
        exact iff_of_true rfl (.inl seen)
      · rw [induction rest, List.map_cons, List.mem_cons]
        constructor
        · exact Or.imp_right .inr
        · rintro (known | rfl | further)
          · exact .inl known
          · exact .inl seen
          · exact .inr further
  | fresh expanded final entry stack drawn new _ induction =>
      rcases List.cons_eq_append_iff.mp split with
        ⟨rfl, here⟩ | ⟨others, rfl, rest⟩
      · obtain ⟨rfl, rfl⟩ := Prod.mk.inj (List.cons.inj here).1
        exact iff_of_false Bool.false_ne_true (by simpa using new)
      · rw [induction rest, List.mem_append, List.mem_singleton,
          List.map_cons, List.mem_cons, or_assoc]
        rfl

/-- The trees an arena unfolds to from its roots; what came before is not unfolded again. -/
structure Unfolds (arena : Arena) (roots : List Nat) (trees : List Tree) :
    Prop where
  roots : trees.map (·.place) = roots
  faithful : ∀ tree ∈ trees, tree.Faithful arena
  repeated :
    ∀ before stop after,
      trees.flatMap (·.walk none) = before ++ stop :: after →
        (stop.node.repeated = true ↔
          ∃ other ∈ before, other.node.place = stop.node.place)

/-- What is drawn of an arena from its roots is drawn of the trees that it unfolds to. -/
theorem exists_unfolds (arena : Arena) (roots : List Nat) :
    ∃ trees,
      Unfolds arena roots trees ∧
        forestEntries arena [] roots =
          trees.map fun tree =>
            (tree.walk none).map fun stop =>
              stop.entry (tree.lasts stop.path) := by
  have writes := writes_of_size arena roots
  obtain ⟨trees, places, faithful, same⟩ := writes.exists_forest
  have walked :
      forestEntries arena [] roots =
        trees.map fun tree =>
          (tree.walk none).map fun stop =>
            stop.entry (tree.lasts stop.path) := by
    rw [same]
    exact List.map_congr_left fun tree _ => tree.drawn_root_eq_map
  refine ⟨trees, ⟨places, faithful, ?_⟩, walked⟩
  intro before stop after split
  have marks :
      (forestEntries arena [] roots).flatten.map (·.mark) =
        before.map (·.mark) ++
          (stop.node.place, stop.node.repeated) :: after.map (·.mark) := by
    have stops := congrArg (List.map Stop.mark) split
    rw [List.map_flatMap, List.map_append, List.map_cons] at stops
    rw [walked, ← List.flatMap_def, List.map_flatMap]
    simp only [List.map_map]
    exact stops
  rw [writes.draws_forest.2.repeated_iff marks]
  simp [Stop.mark]

end FeatureAtlas.Output
