import FeatureAtlas.Proofs.Output.Labels
import FeatureAtlas.Proofs.Output.Unfolding

/-!
# A text tells the shape of its trees

In front of a node there is a cell of four characters for each step of the
path to it.  The cell tells whether the step leads to the last child, so the
shape of the trees can be read off the text; and since the nodes come in
pre-order, the parent of a line is found by going back.
-/

namespace FeatureAtlas.Output

/-! ## Cells -/

/-- The cell of a step, which ends at the node of the line or above it. -/
def Glyphs.cell (glyphs : Glyphs) (ends isLast : Bool) : String :=
  match ends, isLast with
  | false, false => glyphs.pipe
  | false, true => glyphs.space
  | true, false => glyphs.branch
  | true, true => glyphs.corner

theorem length_cell (appearance : Appearance) (ends isLast : Bool) :
    ((Glyphs.of appearance).cell ends isLast).length = 4 := by
  obtain ⟨branch, corner, pipe, space⟩ := length_glyphs appearance
  cases ends <;> cases isLast <;> assumption

/-- The cells of a path, given for each step whether it leads to a last child. -/
def cells (glyphs : Glyphs) : List Bool → List String
  | [] => []
  | isLast :: rest => glyphs.cell rest.isEmpty isLast :: cells glyphs rest

section Cells

variable (glyphs : Glyphs)

theorem length_cells (flags : List Bool) :
    (cells glyphs flags).length = flags.length := by
  induction flags with
  | nil => rfl
  | cons isLast rest induction =>
      rw [cells, List.length_cons, induction, List.length_cons]

theorem getElem?_cells (flags : List Bool) (level : Nat) :
    (cells glyphs flags)[level]? =
      flags[level]?.map (glyphs.cell (level + 1 == flags.length)) := by
  induction flags generalizing level with
  | nil => rfl
  | cons isLast rest induction =>
      cases level with
      | zero => cases rest <;> rfl
      | succ level =>
          rw [cells, List.getElem?_cons_succ, List.getElem?_cons_succ,
            induction]
          simp

/-- The indentation of a line is made of the cells of the path to its node. -/
theorem indentation_eq
    {flags : List Bool} (deep : flags ≠ []) (stop : Stop) :
    indentation glyphs (stop.entry flags).entry =
      "".intercalate (cells glyphs flags) := by
  induction flags with
  | nil => contradiction
  | cons isLast rest induction =>
      cases rest with
      | nil => cases isLast <;> simp [indentation, Stop.entry, cells, Glyphs.cell]
      | cons next rest =>
          have later := induction (List.cons_ne_nil _ _)
          rw [cells, join_cons, ← later]
          cases isLast <;>
            simp [indentation, Stop.entry, Glyphs.cell, join_cons,
              String.append_assoc]

end Cells

/--
Cells trace a path down a tree.  Each is four characters wide and stands for a
step: it says whether the step leads to the last child of the node at its
front, and whether the path ends with it.
-/
structure Traces
    (glyphs : Glyphs) (tree : Tree) (path : List Nat) (cells : List String) :
    Prop where
  length : cells.length = path.length
  width : ∀ cell ∈ cells, cell.length = 4
  steps :
    ∀ front step rest,
      path = front ++ step :: rest →
        ∃ parent,
          tree.at? front = some parent ∧ step < parent.children.length ∧
            cells[front.length]? =
              some
                (glyphs.cell rest.isEmpty
                  (step + 1 == parent.children.length))

theorem traces_cells
    (appearance : Appearance) {tree node : Tree} {path : List Nat}
    (found : tree.at? path = some node) :
    Traces (Glyphs.of appearance) tree path
      (cells (Glyphs.of appearance) (tree.lasts path)) where
  length := (length_cells _ _).trans (Tree.length_lasts found)
  width := by
    intro cell member
    obtain ⟨level, inside, rfl⟩ := List.mem_iff_getElem.mp member
    have listed := List.getElem?_eq_getElem inside
    rw [getElem?_cells, Option.map_eq_some_iff] at listed
    obtain ⟨isLast, -, same⟩ := listed
    rw [← same]
    exact length_cell appearance _ isLast
  steps := by
    rintro front step rest rfl
    obtain ⟨parent, there, inside, told⟩ := Tree.exists_parent found
    refine ⟨parent, there, inside, ?_⟩
    have ends :
        (front.length + 1 == (tree.lasts (front ++ step :: rest)).length) =
          rest.isEmpty := by
      rw [Tree.length_lasts found]
      cases rest <;> simp
    rw [getElem?_cells, told, ends]
    rfl

/-! ## Lines -/

/--
What a line without colors tells of a node.  A root has an icon.  In front of
any other node are cells that trace the path to it, and the arrow of the
relation to its parent.
-/
inductive Tells (ascii : Bool) (arena : Arena) (tree : Tree) :
    Stop → String → Prop where
  | root (node : Tree) :
      Tells ascii arena tree ⟨[], none, node⟩
        ((Glyphs.of ⟨ascii, false⟩).root ++ " " ++
          featureText ⟨ascii, false⟩ (arena.node node.place).feature ++
            marker ⟨ascii, false⟩ node.repeated)
  | below
      (path : List Nat) (relation : Relation) (node : Tree)
      (cells : List String) (deep : path ≠ [])
      (traces : Traces (Glyphs.of ⟨ascii, false⟩) tree path cells) :
      Tells ascii arena tree ⟨path, some relation, node⟩
        ("".intercalate cells ++
          (Glyphs.of ⟨ascii, false⟩).arrow relation ++ " " ++
            featureText ⟨ascii, false⟩ (arena.node node.place).feature ++
              marker ⟨ascii, false⟩ node.repeated)

/-- The line of a stop tells its node. -/
theorem tells_entryLine
    (ascii : Bool) (arena : Arena) {tree : Tree} {stop : Stop}
    (member : stop ∈ tree.walk none) :
    Tells ascii arena tree stop
      (entryLine ⟨ascii, false⟩ arena (stop.entry (tree.lasts stop.path))) := by
  obtain ⟨before, after, split⟩ := List.append_of_mem member
  have found := Tree.at?_of_mem_walk member
  obtain ⟨path, relation, node⟩ := stop
  rcases List.eq_nil_or_concat path with rfl | ⟨front, step, way⟩
  · obtain ⟨-, root⟩ := Tree.eq_root_of_path_eq_nil split rfl
    obtain ⟨-, rfl, rfl⟩ := Stop.mk.inj root
    exact .root _
  · rw [List.concat_eq_append] at way
    obtain ⟨-, own, -, -, related, -⟩ := Tree.find_parent split way
    obtain rfl : relation = some own := related
    have deep : path ≠ [] := by simp [way]
    have flagged : tree.lasts path ≠ [] := by
      rw [← List.length_pos_iff, Tree.length_lasts found]
      exact List.length_pos_iff.mpr deep
    have line :
        Tells ascii arena tree ⟨path, some own, node⟩ _ :=
      .below path own node _ deep (traces_cells ⟨ascii, false⟩ found)
    rw [← indentation_eq _ flagged ⟨path, some own, node⟩] at line
    exact line

/-! ## Whole texts -/

/-- The parts of a text between its line breaks. -/
def linesOf (text : String) : List String :=
  (text.toList.splitOn '\n').map String.ofList

/-- Lines without line breaks in them are found again. -/
theorem linesOf_intercalate
    {lines : List String} (nonempty : lines ≠ [])
    (unbroken : ∀ line ∈ lines, '\n' ∉ line.toList) :
    linesOf ("\n".intercalate lines) = lines := by
  have cut :
      ("\n".intercalate lines).toList.splitOn '\n' =
        lines.map String.toList := by
    rw [String.toList_intercalate]
    refine List.splitOn_intercalate '\n' ?_ (by simpa using nonempty)
    exact List.forall_mem_map.mpr unbroken
  rw [linesOf, cut, List.map_map]
  simp [Function.comp_def]

theorem unlines_append_intercalate
    (lines : List String) {others : List String} (nonempty : others ≠ []) :
    unlines lines ++ "\n".intercalate others =
      "\n".intercalate (lines ++ others) := by
  induction lines with
  | nil => rw [unlines_nil, String.empty_append, List.nil_append]
  | cons line lines induction =>
      obtain ⟨next, rest, listed⟩ :=
        List.ne_nil_iff_exists_cons.mp
          (List.append_ne_nil_of_right_ne_nil lines nonempty)
      rw [unlines_cons, String.append_assoc, induction, List.cons_append,
        listed, String.intercalate_cons_cons]

/-- Blocks with an empty line between them, and a line break after each line. -/
theorem intercalate_unlines (blocks : List (List String)) :
    "\n".intercalate (blocks.map unlines) =
      "\n".intercalate ([""].intercalate blocks ++ [""]) := by
  induction blocks with
  | nil => rfl
  | cons block blocks induction =>
      cases blocks with
      | nil =>
          have ended := unlines_append_intercalate block (List.cons_ne_nil "" [])
          rw [String.intercalate_singleton, String.append_empty] at ended
          rw [List.map_singleton, String.intercalate_singleton, ended,
            List.intercalate_singleton]
      | cons next blocks =>
          have blank : "\n" = unlines [""] := rfl
          have last (lines : List String) : lines ++ [""] ≠ [] := by simp
          rw [List.map_cons, List.map_cons, String.intercalate_cons_cons,
            ← List.map_cons, induction, List.intercalate_cons_cons,
            List.append_assoc, List.append_assoc,
            ← unlines_append_intercalate block (by simp),
            ← unlines_append_intercalate [""] (last _), ← blank,
            String.append_assoc]

/-- The lines of blocks are found again, with the empty ones between the blocks and at the end. -/
theorem linesOf_blocks
    {blocks : List (List String)}
    (unbroken : ∀ block ∈ blocks, ∀ line ∈ block, '\n' ∉ line.toList) :
    linesOf ("\n".intercalate (blocks.map unlines)) =
      [""].intercalate blocks ++ [""] := by
  have empty : ∀ line ∈ [""], '\n' ∉ line.toList := by simp
  have between :
      ∀ line ∈ [""].intercalate blocks, '\n' ∉ line.toList := by
    induction blocks with
    | nil => simp
    | cons block blocks induction =>
        obtain ⟨here, others⟩ := List.forall_mem_cons.mp unbroken
        cases blocks with
        | nil => simpa using here
        | cons next blocks =>
            rw [List.intercalate_cons_cons, List.append_assoc]
            exact
              List.forall_mem_append.mpr
                ⟨here, List.forall_mem_append.mpr ⟨empty, induction others⟩⟩
  rw [intercalate_unlines]
  exact
    linesOf_intercalate (by simp) (List.forall_mem_append.mpr ⟨between, empty⟩)

/-- Text that shows an arena from its roots tells the shape of the trees in it. -/
structure TellsShape
    (ascii : Bool) (arena : Arena) (roots : List Nat) (text : String)
    (trees : List Tree) : Prop where
  unfolds : Unfolds arena roots trees
  lines :
    ∃ blocks,
      linesOf text = [""].intercalate blocks ++ [""] ∧
        List.Forall₂
          (fun tree block =>
            List.Forall₂ (Tells ascii arena tree) (tree.walk none) block)
          trees blocks
  parents :
    ∀ tree ∈ trees, ∀ before stop after front step,
      tree.walk none = before ++ stop :: after →
        stop.path = front ++ [step] →
          ∃ parent relation,
            before.reverse.find? (·.path.length = front.length) =
                some parent ∧
              parent.path = front ∧ stop.relation = some relation ∧
                parent.node.children[step]? = some (relation, stop.node)

section Unbroken

variable {arena : Arena} (unbroken : arena.Lacks '\n')

include unbroken

/-- Names without line breaks are shown on one line. -/
theorem not_mem_entryLine (ascii : Bool) (drawn : DrawnEntry) :
    '\n' ∉ (entryLine ⟨ascii, false⟩ arena drawn).toList := by
  have control : '\n'.toNat < 0x20 := by decide
  have names := unbroken.node drawn.entry.place
  have title : '\n' ∉ (arena.node drawn.entry.place).feature.title.toList :=
    names _ (by simp)
  have belonging := not_mem_location names control
  have icon :=
    not_mem_of_printable
      (printable_glyphs ⟨ascii, false⟩ _ List.mem_cons_self) control
  have space : '\n' ∉ " ".toList := by decide
  have seen : '\n' ∉ (marker ⟨ascii, false⟩ drawn.repeated).toList := by
    cases drawn.repeated <;> decide +revert
  have both {first second : String} (left : '\n' ∉ first.toList)
      (right : '\n' ∉ second.toList) : '\n' ∉ (first ++ second).toList := by
    rw [String.toList_append, List.mem_append, not_or]
    exact ⟨left, right⟩
  have label := both (both title space) belonging
  obtain ⟨⟨place, relation, trail, isLast⟩, repeated⟩ := drawn
  cases relation with
  | none => exact both (both (both icon space) label) seen
  | some relation =>
      have front :=
        not_mem_of_printable
          (printable_append
            (printable_indentation ⟨ascii, false⟩
              ⟨place, some relation, trail, isLast⟩)
            (printable_arrow ⟨ascii, false⟩ relation))
          control
      exact both (both (both front space) label) seen

/-- The text of a forest tells the shape of the trees that it unfolds to. -/
theorem exists_tellsShape (ascii : Bool) (roots : List Nat) :
    ∃ trees,
      TellsShape ascii arena roots
        ("\n".intercalate <|
          (forestEntries arena [] roots).map fun entries =>
            unlines (entries.map (entryLine ⟨ascii, false⟩ arena)))
        trees := by
  obtain ⟨trees, unfolds, drawn⟩ := exists_unfolds arena roots
  let line (tree : Tree) (stop : Stop) : String :=
    entryLine ⟨ascii, false⟩ arena (stop.entry (tree.lasts stop.path))
  let blocks := trees.map fun tree => (tree.walk none).map (line tree)
  refine ⟨trees, unfolds, ⟨blocks, ?lines, ?tells⟩, ?parents⟩
  case lines =>
    have whole :
        ((forestEntries arena [] roots).map fun entries =>
            unlines (entries.map (entryLine ⟨ascii, false⟩ arena))) =
          blocks.map unlines := by
      rw [drawn, List.map_map, List.map_map]
      refine List.map_congr_left fun tree _ => ?_
      rw [Function.comp_apply, Function.comp_apply, List.map_map]
      rfl
    rw [whole]
    refine linesOf_blocks ?_
    refine List.forall_mem_map.mpr fun tree _ => ?_
    exact List.forall_mem_map.mpr fun stop _ => not_mem_entryLine unbroken ascii _
  case tells =>
    refine List.forall₂_map_right_iff.mpr (List.forall₂_same.mpr ?_)
    intro tree _
    refine List.forall₂_map_right_iff.mpr (List.forall₂_same.mpr ?_)
    exact fun stop member => tells_entryLine ascii arena member
  case parents =>
    intro tree _ before stop after front step split way
    exact Tree.find_parent split way

end Unbroken

/--
Where no name has a line break, the text of a graph or forest without colors
tells the shape of the trees that it shows, whichever glyphs are used: the
prefix of a line has a cell for each step of the path to its node, and the
parent is the last one before it that is one level less deep.
-/
theorem text_tells_shape (ascii : Bool) :
    (∀ graph : FeatureGraph, graph.arena.Lacks '\n' →
      ∃ tree,
        TellsShape ascii graph.arena [graph.root]
          (graphText ⟨ascii, false⟩ graph) [tree]) ∧
      ∀ forest : Forest, forest.arena.Lacks '\n' →
        ∃ trees,
          TellsShape ascii forest.arena forest.roots
            (forestText ⟨ascii, false⟩ forest) trees := by
  constructor
  · intro graph unbroken
    obtain ⟨trees, shape⟩ := exists_tellsShape unbroken ascii [graph.root]
    obtain ⟨tree, rfl, -⟩ :=
      List.map_eq_singleton_iff.mp shape.unfolds.roots
    exact ⟨tree, shape⟩
  · intro forest unbroken
    exact exists_tellsShape unbroken ascii forest.roots

/-- A cart needs the stock and prices, and prices need the stock. -/
def cartCatalog : List Feature :=
  [⟨⟨"Shop", "", "Cart", "1"⟩, ["cart"]⟩,
    ⟨⟨"Shop", "", "Price", "1"⟩, ["price"]⟩,
    ⟨⟨"Shop", "", "Stock", "1"⟩, ["stock"]⟩]

def cartLedger : Ledger :=
  .ofList [("cart", ["stock", "price"]), ("price", ["stock"])]

def cartNodes : List GraphNode :=
  [⟨⟨"Shop", "", "Cart", "1"⟩, [1, 2], []⟩,
    ⟨⟨"Shop", "", "Stock", "1"⟩, [], [0, 2]⟩,
    ⟨⟨"Shop", "", "Price", "1"⟩, [1], [0]⟩]

def cartText : String :=
  "* Cart [Shop@1]\n" ++
    "|-- -> Stock [Shop@1]\n" ++
      "|   |-- <- Cart [Shop@1] (see above)\n" ++
        "|   `-- <- Price [Shop@1]\n" ++
          "|       |-- -> Stock [Shop@1] (see above)\n" ++
            "|       `-- <- Cart [Shop@1] (see above)\n" ++
              "`-- -> Price [Shop@1] (see above)\n"

theorem exists_cartGraph :
    ∃ relations graph,
      Relations.build .firstWins cartCatalog ⟨"Shop", "1"⟩ cartLedger =
          .ok relations ∧
        relations.graph ⟨"Shop", "", "Cart", "1"⟩ = .ok graph ∧
          graph.arena.nodes = cartNodes ∧
            (Forest.ofScopes [relations]).arena.nodes = cartNodes ∧
              graphText ⟨true, false⟩ graph = cartText :=
  ⟨_, _, rfl, rfl, rfl, rfl, by decide +kernel⟩

/-- Below the stock there are a pipe and then a blank in front of what stands below the prices. -/
theorem text_tells_shape_of_cart :
    ∃ relations graph tree trees,
      Relations.build .firstWins cartCatalog ⟨"Shop", "1"⟩ cartLedger =
          .ok relations ∧
        relations.graph ⟨"Shop", "", "Cart", "1"⟩ = .ok graph ∧
          graph.arena.Lacks '\n' ∧
            TellsShape true graph.arena [graph.root] cartText [tree] ∧
              (Forest.ofScopes [relations]).arena.Lacks '\n' ∧
                TellsShape false (Forest.ofScopes [relations]).arena
                  (Forest.ofScopes [relations]).roots
                  (forestText ⟨false, false⟩ (.ofScopes [relations]))
                  trees := by
  obtain ⟨relations, graph, built, answered, nodes, forestNodes, text⟩ :=
    exists_cartGraph
  have unbroken : ∀ node ∈ cartNodes, node.feature.Lacks '\n' := by decide
  have graphUnbroken : graph.arena.Lacks '\n' := by
    rw [Arena.Lacks, nodes]
    exact unbroken
  have forestUnbroken : (Forest.ofScopes [relations]).arena.Lacks '\n' := by
    rw [Arena.Lacks, forestNodes]
    exact unbroken
  obtain ⟨tree, single⟩ := (text_tells_shape true).1 graph graphUnbroken
  obtain ⟨trees, shared⟩ := (text_tells_shape false).2 _ forestUnbroken
  rw [text] at single
  exact
    ⟨relations, graph, tree, trees, built, answered, graphUnbroken, single,
      forestUnbroken, shared⟩

end FeatureAtlas.Output
