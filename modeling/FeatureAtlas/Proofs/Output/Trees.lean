import FeatureAtlas.Output.Tree

/-!
# Trees and their paths

A drawn graph is a tree: each node has its neighbours below it, and each of
them is reached by a step from it.  A node of the tree is told by the path to
it, so its ancestors are the nodes at the front parts of the path.  A walk
comes to the nodes in pre-order; between a node and a child of it the walk
stays below the node, so going back from the child the first node on the level
above is its parent.
-/

namespace FeatureAtlas.Output

/-- A node: the place that it stands for, whether it is a repetition, and what is below it. -/
inductive Tree where
  | node (place : Nat) (repeated : Bool) (children : List (Relation × Tree))

/-- A node that a walk comes to, with the path to it and its relation to the node above. -/
structure Stop where
  path : List Nat
  relation : Option Relation
  node : Tree

/-- A stop within a tree as it is seen from one level further up, so many steps aside. -/
def Stop.under (step : Nat) (stop : Stop) : Stop :=
  { stop with path := step :: stop.path }

namespace Tree

def place : Tree → Nat
  | node place _ _ => place

def repeated : Tree → Bool
  | node _ repeated _ => repeated

def children : Tree → List (Relation × Tree)
  | node _ _ children => children

/-- The node at the end of a path; a step is the index of a child. -/
def at? : Tree → List Nat → Option Tree
  | tree, [] => some tree
  | tree, step :: path =>
    tree.children[step]?.bind fun child => child.2.at? path

mutual

/-- All nodes of a tree in pre-order. -/
def walk (relation : Option Relation) : Tree → List Stop
  | node place repeated children =>
    ⟨[], relation, node place repeated children⟩ :: walkAll 0 children

/-- The nodes of trees side by side, the first of them so many steps aside. -/
def walkAll (step : Nat) : List (Relation × Tree) → List Stop
  | [] => []
  | (relation, tree) :: rest =>
    (tree.walk (some relation)).map (.under step) ++ walkAll (step + 1) rest

end

theorem walk_eq (relation : Option Relation) (tree : Tree) :
    tree.walk relation = ⟨[], relation, tree⟩ :: walkAll 0 tree.children := by
  cases tree
  rw [walk, children]

theorem at?_cons
    {tree child : Tree} {step : Nat} {relation : Relation}
    (listed : tree.children[step]? = some (relation, child))
    (path : List Nat) :
    tree.at? (step :: path) = child.at? path := by
  rw [at?, listed, Option.bind_some]

theorem path_ne_nil_of_mem_walkAll
    {step : Nat} {trees : List (Relation × Tree)} :
    ∀ stop ∈ walkAll step trees, stop.path ≠ [] := by
  induction trees generalizing step with
  | nil => simp [walkAll]
  | cons tree trees induction =>
      rw [walkAll]
      refine List.forall_mem_append.mpr ⟨?_, induction⟩
      exact List.forall_mem_map.mpr fun stop _ => List.cons_ne_nil _ _

/-! ## Going back on a walk -/

/-- What stands in two lists together stands in the first of them or in the second. -/
theorem split_append
    {α : Type} {first second before after : List α} {item : α}
    (split : first ++ second = before ++ item :: after) :
    (∃ later, first = before ++ item :: later) ∨
      ∃ front, before = first ++ front ∧ second = front ++ item :: after := by
  rcases List.append_eq_append_iff.mp split with
    ⟨front, whole, rest⟩ | ⟨later, whole, rest⟩
  · exact .inr ⟨front, whole, rest⟩
  · cases later with
    | nil => exact .inr ⟨[], by simpa using whole.symm, rest.symm⟩
    | cons next later =>
        obtain ⟨rfl, -⟩ := List.cons.inj rest
        exact .inl ⟨later, whole⟩

/-- A stop below a node is one in the tree that the first step of its path leads to. -/
theorem exists_of_walkAll_eq
    {start : Nat} {trees : List (Relation × Tree)} {before after : List Stop}
    {stop : Stop} (split : walkAll start trees = before ++ stop :: after) :
    ∃ step relation tree prior inner within later,
      trees[step]? = some (relation, tree) ∧
        tree.walk (some relation) = inner ++ within :: later ∧
          stop = within.under (start + step) ∧
            before = prior ++ inner.map (.under (start + step)) ∧
              ∀ other ∈ prior, other.path ≠ [] := by
  induction trees generalizing start before with
  | nil => simp [walkAll] at split
  | cons first trees induction =>
      obtain ⟨relation, tree⟩ := first
      rw [walkAll] at split
      rcases split_append split with ⟨later, here⟩ | ⟨front, rfl, rest⟩
      · obtain ⟨inner, rest, walked, rfl, cut⟩ := List.map_eq_append_iff.mp here
        obtain ⟨within, last, rfl, rfl, -⟩ := List.map_eq_cons_iff.mp cut
        exact
          ⟨0, relation, tree, [], inner, within, last, rfl, walked, rfl, rfl,
            by simp⟩
      · obtain ⟨step, other, child, prior, inner, within, last, listed, walked,
          rfl, rfl, deep⟩ := induction rest
        refine
          ⟨step + 1, other, child,
            (tree.walk (some relation)).map (.under start) ++ prior, inner,
            within, last, listed, walked, ?_, ?_, ?_⟩
        · rw [Nat.add_right_comm, Nat.add_assoc]
        · rw [Nat.add_right_comm, Nat.add_assoc, List.append_assoc]
        · refine List.forall_mem_append.mpr ⟨?_, deep⟩
          exact List.forall_mem_map.mpr fun stop _ => List.cons_ne_nil _ _

/-- Before a stop the walk comes to the node and to what comes first in the child on the way. -/
theorem exists_of_walk_eq
    {relation : Option Relation} {tree : Tree} {before after : List Stop}
    {stop : Stop} {step : Nat} {path : List Nat}
    (split : tree.walk relation = before ++ stop :: after)
    (way : stop.path = step :: path) :
    ∃ own child prior inner within later,
      tree.children[step]? = some (own, child) ∧
        child.walk (some own) = inner ++ within :: later ∧
          within.path = path ∧ stop = within.under step ∧
            before =
                ⟨[], relation, tree⟩ :: (prior ++ inner.map (.under step)) ∧
              ∀ other ∈ prior, other.path ≠ [] := by
  rw [walk_eq] at split
  rcases List.cons_eq_append_iff.mp split with
    ⟨-, root⟩ | ⟨before, rfl, rest⟩
  · obtain ⟨rfl, -⟩ := List.cons.inj root
    cases way
  · obtain ⟨index, own, child, prior, inner, within, later, listed, walked,
      rfl, rfl, deep⟩ := exists_of_walkAll_eq rest
    rw [Nat.zero_add] at way ⊢
    obtain ⟨rfl, inside⟩ := List.cons.inj way
    exact
      ⟨own, child, prior, inner, within, later, listed, walked, inside, rfl,
        rfl, deep⟩

/-- A walk begins with the root and does not come back to it. -/
theorem eq_root_of_path_eq_nil
    {relation : Option Relation} {tree : Tree} {before after : List Stop}
    {stop : Stop} (split : tree.walk relation = before ++ stop :: after)
    (root : stop.path = []) :
    before = [] ∧ stop = ⟨[], relation, tree⟩ := by
  rw [walk_eq] at split
  rcases List.cons_eq_append_iff.mp split with
    ⟨rfl, here⟩ | ⟨before, rfl, rest⟩
  · exact ⟨rfl, (List.cons.inj here).1⟩
  · have deep : stop.path ≠ [] :=
      path_ne_nil_of_mem_walkAll stop (by rw [rest]; simp)
    exact absurd root deep

/--
A node that a step leads to is a child of the last one before it that stands
on the level above.
-/
theorem find_parent
    {relation : Option Relation} {tree : Tree} {before after : List Stop}
    {stop : Stop} {front : List Nat} {step : Nat}
    (split : tree.walk relation = before ++ stop :: after)
    (way : stop.path = front ++ [step]) :
    ∃ parent own,
      before.reverse.find? (fun other => other.path.length = front.length) =
          some parent ∧
        parent.path = front ∧ stop.relation = some own ∧
          parent.node.children[step]? = some (own, stop.node) := by
  induction front generalizing relation tree before after stop with
  | nil =>
      obtain ⟨own, child, prior, inner, within, later, listed, walked, inside,
        rfl, rfl, deep⟩ := exists_of_walk_eq split way
      obtain ⟨rfl, rfl⟩ := eq_root_of_path_eq_nil walked inside
      refine ⟨⟨[], relation, tree⟩, own, ?_, rfl, rfl, listed⟩
      have none :
          prior.reverse.find? (fun other => other.path.length = 0) =
            Option.none := by
        rw [List.find?_eq_none]
        intro other member
        simpa using deep other (List.mem_reverse.mp member)
      rw [List.map_nil, List.append_nil, List.reverse_cons,
        List.find?_append, List.length_nil, none]
      rfl
  | cons first front induction =>
      obtain ⟨own, child, prior, inner, within, later, listed, walked, inside,
        rfl, rfl, deep⟩ := exists_of_walk_eq split way
      obtain ⟨parent, last, found, here, related, leads⟩ :=
        induction walked inside
      refine ⟨parent.under first, last, ?_, ?_, related, leads⟩
      · have lifted :
            (inner.map (Stop.under first)).reverse.find?
                (fun other => other.path.length = (first :: front).length) =
              some (parent.under first) := by
          rw [← List.map_reverse, List.find?_map]
          simp only [Function.comp_def, Stop.under, List.length_cons,
            Nat.add_right_cancel_iff, found, Option.map_some]
        rw [List.reverse_cons, List.reverse_append, List.find?_append,
          List.find?_append, lifted]
        rfl
      · rw [Stop.under, here]

/-- The node of a stop is the one that its path leads to. -/
theorem at?_of_mem_walk
    {relation : Option Relation} {tree : Tree} {stop : Stop}
    (member : stop ∈ tree.walk relation) :
    tree.at? stop.path = some stop.node := by
  obtain ⟨before, after, split⟩ := List.append_of_mem member
  generalize way : stop.path = path
  induction path generalizing relation tree stop before after with
  | nil =>
      obtain ⟨-, rfl⟩ := eq_root_of_path_eq_nil split way
      rfl
  | cons step path induction =>
      obtain ⟨own, child, prior, inner, within, later, listed, walked, inside,
        rfl, -, -⟩ := exists_of_walk_eq split way
      have inChild : within ∈ child.walk (some own) := by simp [walked]
      rw [at?_cons listed, induction inChild inner later walked inside]
      rfl

/-! ## Last children -/

/-- For each step of a path, whether it leads to the last child. -/
def lasts : Tree → List Nat → List Bool
  | _, [] => []
  | tree, step :: path =>
    (step + 1 == tree.children.length) ::
      match tree.children[step]? with
      | some child => child.2.lasts path
      | none => []

theorem lasts_cons
    {tree child : Tree} {step : Nat} {relation : Relation}
    (listed : tree.children[step]? = some (relation, child))
    (path : List Nat) :
    tree.lasts (step :: path) =
      (step + 1 == tree.children.length) :: child.lasts path := by
  rw [lasts, listed]

theorem exists_child_of_at?_cons
    {tree node : Tree} {step : Nat} {path : List Nat}
    (found : tree.at? (step :: path) = some node) :
    ∃ relation child,
      tree.children[step]? = some (relation, child) ∧
        child.at? path = some node := by
  rw [at?, Option.bind_eq_some_iff] at found
  obtain ⟨⟨relation, child⟩, listed, there⟩ := found
  exact ⟨relation, child, listed, there⟩

theorem length_lasts
    {tree node : Tree} {path : List Nat}
    (found : tree.at? path = some node) :
    (tree.lasts path).length = path.length := by
  induction path generalizing tree with
  | nil => rfl
  | cons step path induction =>
      obtain ⟨relation, child, listed, there⟩ := exists_child_of_at?_cons found
      rw [lasts_cons listed, List.length_cons, List.length_cons,
        induction there]

/-- A step of a path leads from the node at its front to a child, the last one or another. -/
theorem exists_parent
    {tree node : Tree} {front rest : List Nat} {step : Nat}
    (found : tree.at? (front ++ step :: rest) = some node) :
    ∃ parent,
      tree.at? front = some parent ∧ step < parent.children.length ∧
        (tree.lasts (front ++ step :: rest))[front.length]? =
          some (step + 1 == parent.children.length) := by
  induction front generalizing tree with
  | nil =>
      obtain ⟨relation, child, listed, -⟩ := exists_child_of_at?_cons found
      rw [List.nil_append, lasts_cons listed]
      exact ⟨tree, rfl, (List.getElem?_eq_some_iff.mp listed).1, rfl⟩
  | cons first front induction =>
      obtain ⟨relation, child, listed, there⟩ := exists_child_of_at?_cons found
      obtain ⟨parent, before, inside, told⟩ := induction there
      refine ⟨parent, ?_, inside, ?_⟩
      · rw [at?_cons listed, before]
      · rw [List.cons_append, lasts_cons listed, List.length_cons,
          List.getElem?_cons_succ, told]

end Tree

end FeatureAtlas.Output
