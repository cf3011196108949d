import FeatureAtlas.Proofs.Lookups.Expansion
import FeatureAtlas.Proofs.Output.Coverage

/-!
# Strict look-ups: drawing

Both renderings in strict form: each node is looked up when its feature or its
neighbours are read.  They begin at roots and go on to places that nodes list,
so in an arena that lists only its own places they look nothing up that is not
there.  With that no look-up fails between the catalog and the output.
-/

namespace FeatureAtlas

/-- The places that roots and nodes store are places of the arena, and its table finds them. -/
structure Arena.InRange (arena : Arena) (roots : List Nat) : Prop where
  indexed : arena.Indexed
  found_lt :
    ∀ id place, arena.find? id = some place → place < arena.size
  root_lt : ∀ root ∈ roots, root < arena.size
  listed_lt :
    ∀ node ∈ arena.nodes, ∀ place ∈ node.dependsOn ++ node.dependants,
      place < arena.size

theorem Arena.InRange.lt_of_listedAt
    {arena : Arena} {roots : List Nat} (inRange : arena.InRange roots)
    {place : Nat} (inside : place < arena.size) :
    ∀ other ∈ arena.listedAt place, other < arena.size :=
  inRange.listed_lt (arena.node place) (node_mem inside)

namespace Output

open Json (Value)

variable {arena : Arena} {roots : List Nat}

/-! ## Values -/

section Values

variable {σ α β : Type}

/-- Apply a function with a state that may have no result to each element. -/
def mapWith? (function? : σ → α → Option (β × σ)) :
    σ → List α → Option (List β × σ)
  | state, [] => some ([], state)
  | state, head :: rest => do
    let (value, state) ← function? state head
    let (values, state) ← mapWith? function? state rest
    some (value :: values, state)

theorem mapWith?_eq
    {function? : σ → α → Option (β × σ)} {function : σ → α → β × σ}
    {list : List α}
    (found :
      ∀ element ∈ list, ∀ state,
        function? state element = some (function state element))
    (state : σ) :
    mapWith? function? state list = some (mapWith function state list) := by
  induction list generalizing state with
  | nil => rfl
  | cons head rest induction =>
      rw [List.forall_mem_cons] at found
      rw [mapWith?, found.1, Option.bind_eq_bind, Option.bind_some]
      dsimp only
      rw [induction found.2]
      rfl

end Values

def nodeValue? (arena : Arena) :
    Nat → List Nat → Nat → Option (Value × List Nat)
  | 0, expanded, place => do
    let node ← arena.node? place
    some (repeatedValue node.feature, expanded)
  | depth + 1, expanded, place => do
    let node ← arena.node? place
    if place ∈ expanded then some (repeatedValue node.feature, expanded)
    else
      let (dependsOn, expanded) ←
        mapWith? (nodeValue? arena depth) (expanded ++ [place])
          node.dependsOn
      let (dependants, expanded) ←
        mapWith? (nodeValue? arena depth) expanded node.dependants
      some (expandedValue node.feature dependsOn dependants, expanded)

def graphValue? (graph : FeatureGraph) : Option Value := do
  let (value, _) ←
    nodeValue? graph.arena (graph.arena.size + 1) [] graph.root
  some value

def forestValue? (forest : Forest) : Option Value := do
  let (values, _) ←
    mapWith? (nodeValue? forest.arena (forest.arena.size + 1)) []
      forest.roots
  some (.array values)

theorem nodeValue?_eq
    (inRange : arena.InRange roots) (depth : Nat) {place : Nat}
    (inside : place < arena.size) (expanded : List Nat) :
    nodeValue? arena depth expanded place =
      some (nodeValue arena depth expanded place) := by
  induction depth generalizing place expanded with
  | zero =>
      rw [nodeValue?, Arena.node?_eq inside]
      rfl
  | succ depth induction =>
      have listed := inRange.lt_of_listedAt inside
      have forward :
          ∀ other ∈ (arena.node place).dependsOn, other < arena.size :=
        fun other member => listed other (List.mem_append_left _ member)
      have backward :
          ∀ other ∈ (arena.node place).dependants, other < arena.size :=
        fun other member => listed other (List.mem_append_right _ member)
      rw [nodeValue?, nodeValue, Arena.node?_eq inside, Option.bind_eq_bind,
        Option.bind_some]
      dsimp only
      split
      · rfl
      · rw [mapWith?_eq fun other member => induction (forward other member),
          Option.bind_eq_bind, Option.bind_some,
          mapWith?_eq fun other member => induction (backward other member)]
        rfl

/-! ## Texts -/

def Entry.children? (arena : Arena) (entry : Entry) :
    Option (List Entry) := do
  let node ← arena.node? entry.place
  some <|
    siblings entry.childTrail <|
      node.dependsOn.map (Relation.dependsOn, ·) ++
        node.dependants.map (Relation.dependant, ·)

namespace Drawing

def draw? (arena : Arena) : Nat → Drawing → List Entry → Option Drawing
  | 0, drawing, _ => some drawing
  | _ + 1, drawing, [] => some drawing
  | count + 1, drawing, entry :: stack =>
    if entry.place ∈ drawing.expanded then
      draw? arena count (drawing.add entry true) stack
    else do
      let children ← entry.children? arena
      draw? arena count (drawing.add entry false) (children ++ stack)

def drawRoot? (arena : Arena) (drawing : Drawing) (root : Nat) :
    Option Drawing :=
  draw? arena (neighbours arena + 1) drawing [.root root]

end Drawing

/-- The line of an entry, whose node is looked up. -/
def entryLine?
    (appearance : Appearance) (arena : Arena) (drawn : DrawnEntry) :
    Option String := do
  let node ← arena.node? drawn.entry.place
  let glyphs := Glyphs.of appearance
  let label := featureText appearance node.feature
  let marker :=
    if drawn.repeated then
      " " ++ Style.dimmed.paint appearance "(see above)"
    else ""
  match drawn.entry.relation with
  | none =>
    some
      (Style.bold.paint appearance
          (Style.info.paint appearance glyphs.root) ++ " " ++
        label ++ marker)
  | some relation =>
    some
      (Style.dimmed.paint appearance (indentation glyphs drawn.entry) ++
        Style.dimmed.paint appearance (glyphs.arrow relation) ++ " " ++
          label ++ marker)

/-- The lines of the entries of one tree. -/
def treeText?
    (appearance : Appearance) (arena : Arena)
    (entries : List DrawnEntry) : Option String := do
  let lines ← entries.mapM (entryLine? appearance arena)
  some (unlines lines)

def graphText? (appearance : Appearance) (graph : FeatureGraph) :
    Option String := do
  let drawing ← Drawing.empty.drawRoot? graph.arena graph.root
  treeText? appearance graph.arena drawing.entries

def forestEntries? (arena : Arena) :
    List Nat → List Nat → Option (List (List DrawnEntry))
  | _, [] => some []
  | expanded, root :: roots => do
    let drawing ← Drawing.drawRoot? arena ⟨[], expanded⟩ root
    let others ← forestEntries? arena drawing.expanded roots
    some (drawing.entries :: others)

def forestText? (appearance : Appearance) (forest : Forest) :
    Option String := do
  let trees ← forestEntries? forest.arena [] forest.roots
  let texts ← trees.mapM (treeText? appearance forest.arena)
  some ("\n".intercalate texts)

theorem Entry.children?_eq
    {entry : Entry} (inside : entry.place < arena.size) :
    entry.children? arena = some (entry.children arena) := by
  rw [children?, Arena.node?_eq inside]
  rfl

theorem Entry.place_lt_of_mem_children
    (inRange : arena.InRange roots) {entry : Entry}
    (inside : entry.place < arena.size) :
    ∀ child ∈ entry.children arena, child.place < arena.size := by
  intro child member
  refine inRange.lt_of_listedAt inside child.place ?_
  rw [← map_place_children]
  exact List.mem_map_of_mem member

/-- Entries whose nodes are there are drawn, and what is drawn are such entries. -/
theorem Drawing.draw?_eq
    (inRange : arena.InRange roots) (count : Nat) {drawing : Drawing}
    {stack : List Entry}
    (drawn : ∀ one ∈ drawing.entries, one.entry.place < arena.size)
    (inside : ∀ entry ∈ stack, entry.place < arena.size) :
    draw? arena count drawing stack =
        some (draw arena count drawing stack) ∧
      ∀ one ∈ (draw arena count drawing stack).entries,
        one.entry.place < arena.size := by
  -- What is drawn comes from the stack, and what joins the stack is listed.
  induction count generalizing drawing stack with
  | zero => exact ⟨rfl, drawn⟩
  | succ count induction =>
      cases stack with
      | nil => exact ⟨rfl, drawn⟩
      | cons entry stack =>
          rw [List.forall_mem_cons] at inside
          have longer :
              ∀ again, ∀ one ∈ (drawing.add entry again).entries,
                one.entry.place < arena.size := by
            intro again
            refine List.forall_mem_append.mpr ⟨drawn, ?_⟩
            exact List.forall_mem_singleton.mpr inside.1
          rw [draw?, draw, Entry.children?_eq inside.1]
          split
          · exact induction (longer true) inside.2
          · refine induction (longer false) ?_
            exact
              List.forall_mem_append.mpr
                ⟨Entry.place_lt_of_mem_children inRange inside.1, inside.2⟩

theorem Drawing.drawRoot?_eq
    (inRange : arena.InRange roots) (expanded : List Nat) {root : Nat}
    (inside : root < arena.size) :
    drawRoot? arena ⟨[], expanded⟩ root =
        some (drawRoot arena ⟨[], expanded⟩ root) ∧
      ∀ one ∈ (drawRoot arena ⟨[], expanded⟩ root).entries,
        one.entry.place < arena.size :=
  draw?_eq inRange _ (by simp) (List.forall_mem_singleton.mpr inside)

theorem entryLine?_eq
    (appearance : Appearance) {drawn : DrawnEntry}
    (inside : drawn.entry.place < arena.size) :
    entryLine? appearance arena drawn =
      some (entryLine appearance arena drawn) := by
  rw [entryLine?, entryLine, Arena.node?_eq inside]
  cases drawn.entry.relation <;> rfl

theorem treeText?_eq
    (appearance : Appearance) {entries : List DrawnEntry}
    (inside : ∀ one ∈ entries, one.entry.place < arena.size) :
    treeText? appearance arena entries =
      some (unlines (entries.map (entryLine appearance arena))) := by
  rw [treeText?,
    Strict.mapM_eq_map fun one member =>
      entryLine?_eq appearance (inside one member)]
  rfl

theorem forestEntries?_eq
    (inRange : arena.InRange roots) {others : List Nat}
    (inside : ∀ root ∈ others, root < arena.size) (expanded : List Nat) :
    forestEntries? arena expanded others =
        some (forestEntries arena expanded others) ∧
      ∀ entries ∈ forestEntries arena expanded others,
        ∀ one ∈ entries, one.entry.place < arena.size := by
  induction others generalizing expanded with
  | nil => exact ⟨rfl, by simp [forestEntries]⟩
  | cons root others induction =>
      rw [List.forall_mem_cons] at inside
      obtain ⟨drawn, here⟩ :=
        Drawing.drawRoot?_eq inRange expanded inside.1
      obtain ⟨rest, there⟩ :=
        induction inside.2
          (Drawing.drawRoot arena ⟨[], expanded⟩ root).expanded
      constructor
      · rw [forestEntries?, drawn, Option.bind_eq_bind, Option.bind_some,
          rest]
        rfl
      · exact List.forall_mem_cons.mpr ⟨here, there⟩

end Output

/-! ## From the catalog to the output -/

/-- The queries that relations answer by position look nothing up that is not there. -/
structure Relations.Answering (relations : Relations) : Prop where
  owner :
    ∀ signature,
      relations.owner? signature =
        some (relations.ownership.owner? signature)
  directDependencies :
    ∀ id,
      relations.directDependencies? id =
        some (relations.directDependencies id)
  directDependents :
    ∀ id,
      relations.directDependents? id = some (relations.directDependents id)
  roots : relations.roots? = some relations.roots
  cycles : relations.cycles? = some relations.cycles
  cyclesBy :
    ∀ search, Digraph.ListsNodes search relations.digraph →
      relations.cyclesBy? search = some (relations.cyclesBy search)
  graph : ∀ id, relations.graph? id = some (relations.graph id)

/-- The places that a graph stores are its own, so it is rendered without a look-up that fails. -/
structure FeatureGraph.InRange (graph : FeatureGraph) : Prop where
  arena : graph.arena.InRange [graph.root]
  text :
    ∀ appearance,
      Output.graphText? appearance graph =
        some (Output.graphText appearance graph)
  value : Output.graphValue? graph = some (Output.graphValue graph)

/-- The places that a forest stores are its own, so it is rendered without a look-up that fails. -/
structure Forest.InRange (forest : Forest) : Prop where
  arena : forest.arena.InRange forest.roots
  text :
    ∀ appearance,
      Output.forestText? appearance forest =
        some (Output.forestText appearance forest)
  value : Output.forestValue? forest = some (Output.forestValue forest)

theorem FeatureGraph.inRange_of_arena
    {graph : FeatureGraph} (inRange : graph.arena.InRange [graph.root]) :
    graph.InRange where
  arena := inRange
  text := by
    intro appearance
    have inside := inRange.root_lt graph.root List.mem_cons_self
    obtain ⟨drawn, entries⟩ :=
      Output.Drawing.drawRoot?_eq inRange [] inside
    rw [Output.graphText?, Output.Drawing.empty, drawn,
      Option.bind_eq_bind, Option.bind_some,
      Output.treeText?_eq appearance entries]
    rfl
  value := by
    have inside := inRange.root_lt graph.root List.mem_cons_self
    rw [Output.graphValue?, Output.nodeValue?_eq inRange _ inside]
    rfl

theorem Forest.inRange_of_arena
    {forest : Forest} (inRange : forest.arena.InRange forest.roots) :
    forest.InRange where
  arena := inRange
  text := by
    intro appearance
    obtain ⟨drawn, entries⟩ :=
      Output.forestEntries?_eq inRange inRange.root_lt []
    rw [Output.forestText?, drawn, Option.bind_eq_bind, Option.bind_some,
      Strict.mapM_eq_map fun tree member =>
        Output.treeText?_eq appearance (entries tree member)]
    rfl
  value := by
    rw [Output.forestValue?,
      Output.mapWith?_eq fun root member =>
        Output.nodeValue?_eq inRange _ (inRange.root_lt root member)]
    rfl

/-- In a sound forest nothing leads out of the arena. -/
theorem Forest.Sound.inRange
    {family : List Relations} {forest : Forest}
    (sound : forest.Sound family) :
    forest.arena.InRange forest.roots where
  indexed := sound.finished.indexed
  found_lt := fun id place found =>
    Arena.lt_size_of_features ((sound.finished.indexed id place).mp found)
  root_lt := sound.within
  listed_lt := fun node member _ listed =>
    (sound.finished.settled node member).lt_size listed

namespace Relations

/-- Relations that keep their positions in range answer. -/
theorem InRange.answering
    {relations : Relations} (inRange : relations.InRange)
    (lawful : relations.Lawful) :
    relations.Answering where
  owner := inRange.owner?_eq
  directDependencies := inRange.directDependencies?_eq
  directDependents := inRange.directDependents?_eq
  roots := inRange.roots?_eq
  cycles := inRange.cycles?_eq
  cyclesBy := fun _ nodes => inRange.cyclesBy?_eq nodes
  graph := inRange.graph?_eq lawful

end Relations

/--
No look-up fails, from the catalog to the output: not while relations are
built, not in their queries, and neither while graphs and forests grow nor
while they are drawn.  Whatever is stored is in range, and the table of an
arena keeps in step with its nodes through every growth.
-/
theorem lookups_succeed
    {scopes : List Relations}
    (built :
      ∀ relations ∈ scopes,
        ∃ policy catalog scope ledger,
          Relations.build policy catalog scope ledger = .ok relations) :
    (∀ policy catalog scope ledger,
      Relations.build? policy catalog scope ledger =
        some (Relations.build policy catalog scope ledger)) ∧
      (∀ relations ∈ scopes,
        relations.InRange ∧ relations.Answering ∧
          ∀ id graph, relations.graph id = .ok graph → graph.InRange) ∧
        (Arena.empty.Indexed ∧
          (∀ relations : Relations, relations.KeepsIndexed) ∧
            ∀ roots : List ScopeRoot,
              (roots.foldl Forest.grow .empty).arena.Indexed) ∧
          Forest.ofScopes? scopes = some (Forest.ofScopes scopes) ∧
            (Forest.ofScopes scopes).InRange := by
  have inRange : ∀ relations ∈ scopes, relations.InRange := by
    intro relations member
    obtain ⟨policy, catalog, scope, ledger, made⟩ := built relations member
    exact Relations.inRange_of_build made
  have lawful : ∀ relations ∈ scopes, relations.Lawful := by
    intro relations member
    obtain ⟨policy, catalog, scope, ledger, made⟩ := built relations member
    exact Relations.lawful_of_build made
  refine
    ⟨Relations.build?_eq, ?_,
      ⟨Arena.indexed_empty, Relations.keepsIndexed,
        Forest.indexed_foldl Arena.indexed_empty⟩,
      Forest.ofScopes?_eq inRange lawful, ?_⟩
  · intro relations member
    have here := lawful relations member
    refine
      ⟨inRange relations member, (inRange relations member).answering here,
        ?_⟩
    intro id graph answered
    exact
      FeatureGraph.inRange_of_arena (here.sound_graph answered).inRange
  · exact Forest.inRange_of_arena (Forest.sound_ofScopes lawful).inRange

/--
Two features that call each other and share a signature, one that asks for
them, and one of another version.
-/
def deskCatalog : List Feature :=
  [⟨⟨"Shop", "", "Cart", "1"⟩, ["add", "sum"]⟩,
    ⟨⟨"Shop", "", "Cart", "2"⟩, ["add"]⟩,
    ⟨⟨"Shop", "", "Stock", "1"⟩, ["reserve", "sum"]⟩,
    ⟨⟨"Shop", "", "Desk", "1"⟩, ["show"]⟩]

/-- The calls between them. -/
def deskLedger : Ledger :=
  .ofList [("add", ["reserve"]), ("reserve", ["sum"]), ("show", ["add"])]

/-- A conflict, a cycle and the roots of two scopes, with every look-up made strictly. -/
theorem lookups_succeed_of_desk :
    ∃ first second forest,
      Relations.build? .firstWins deskCatalog ⟨"Shop", "1"⟩ deskLedger =
          some (.ok first) ∧
        Relations.build? .reject deskCatalog ⟨"Shop", "2"⟩ deskLedger =
            some (.ok second) ∧
          first.conflicts.map (·.signature) = ["sum"] ∧
            first.InRange ∧
              first.cyclesBy? (fun _ => [[1, 0], [2]]) =
                  some
                    [⟨[⟨"Shop", "", "Cart", "1"⟩,
                      ⟨"Shop", "", "Stock", "1"⟩]⟩] ∧
                Forest.ofScopes? [first, second] = some forest ∧
                  forest.InRange ∧
                    forest.arena.features.map (·.title) =
                        ["Cart", "Desk", "Cart", "Stock"] ∧
                      forest.roots = [0, 1] := by
  have made :
      ∃ first second,
        Relations.build .firstWins deskCatalog ⟨"Shop", "1"⟩ deskLedger =
            .ok first ∧
          Relations.build .reject deskCatalog ⟨"Shop", "2"⟩ deskLedger =
              .ok second ∧
            first.conflicts.map (·.signature) = ["sum"] ∧
              first.digraph.size = 3 ∧
                first.cyclesBy (fun _ => [[1, 0], [2]]) =
                    [⟨[⟨"Shop", "", "Cart", "1"⟩,
                      ⟨"Shop", "", "Stock", "1"⟩]⟩] ∧
                  (Forest.ofScopes [first, second]).arena.features.map
                        (·.title) =
                      ["Cart", "Desk", "Cart", "Stock"] ∧
                    (Forest.ofScopes [first, second]).roots = [0, 1] :=
    ⟨_, _, rfl, rfl, rfl, rfl, rfl, rfl, rfl⟩
  rcases made with
    ⟨first, second, firstMade, secondMade, conflicts, sized, cycles, titles,
      roots⟩
  have built :
      ∀ relations ∈ [first, second],
        ∃ policy catalog scope ledger,
          Relations.build policy catalog scope ledger = .ok relations := by
    simp only [List.forall_mem_cons, List.not_mem_nil, false_imp_iff,
      implies_true, and_true]
    exact ⟨⟨_, _, _, _, firstMade⟩, ⟨_, _, _, _, secondMade⟩⟩
  obtain ⟨strict, each, -, grown, drawn⟩ := lookups_succeed built
  obtain ⟨inRange, answering, -⟩ := each first List.mem_cons_self
  have nodes : Digraph.ListsNodes (fun _ => [[1, 0], [2]]) first.digraph := by
    rw [Digraph.ListsNodes, sized]
    decide
  exact
    ⟨first, second, Forest.ofScopes [first, second],
      (strict _ _ _ _).trans (congrArg some firstMade),
      (strict _ _ _ _).trans (congrArg some secondMade), conflicts, inRange,
      (answering.cyclesBy _ nodes).trans (congrArg some cycles), grown,
      drawn, titles, roots⟩

end FeatureAtlas
