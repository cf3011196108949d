import FeatureAtlas.Output.GraphJson
import FeatureAtlas.Output.Tree
import Mathlib.Data.List.Flatten
import Mathlib.Data.List.Nodup

/-!
# Renderings without bounds

A graph is drawn as text by a loop over a stack of entries and written as a
value by a recursion over places.  Both skip what has been expanded, so they
end on cycles too.  Here the two are told without a bound on their steps, and
the bounds in the programs are shown to suffice: each entry that is drawn
either comes off the stack or is paid for by the place that brought it in,
and each level of a value expands one place more.
-/

namespace FeatureAtlas.Output

/-! ## Entries side by side -/

/-- The neighbours of the node at a place, those it depends on before those that depend on it. -/
def neighboursAt (arena : Arena) (place : Nat) : List (Relation × Nat) :=
  (arena.node place).dependsOn.map (Relation.dependsOn, ·) ++
    (arena.node place).dependants.map (Relation.dependant, ·)

namespace Entry

/-- The number of entries above an entry. -/
def depth (entry : Entry) : Nat :=
  entry.childTrail.length

@[simp]
theorem depth_root (place : Nat) : (root place).depth = 0 := rfl

theorem children_eq (arena : Arena) (entry : Entry) :
    entry.children arena =
      siblings entry.childTrail (neighboursAt arena entry.place) :=
  rfl

/-- Where an entry leads, and how. -/
def link (entry : Entry) : Option Relation × Nat :=
  (entry.relation, entry.place)

theorem map_link_siblings
    (trail : List Bool) (neighbours : List (Relation × Nat)) :
    (siblings trail neighbours).map link =
      neighbours.map fun neighbour => (some neighbour.1, neighbour.2) := by
  induction neighbours with
  | nil => rfl
  | cons neighbour rest induction =>
      rw [siblings, List.map_cons, List.map_cons, induction]
      rfl

theorem depth_of_mem_siblings
    {trail : List Bool} {neighbours : List (Relation × Nat)} {entry : Entry}
    (member : entry ∈ siblings trail neighbours) :
    entry.depth = trail.length + 1 := by
  induction neighbours with
  | nil => cases member
  | cons neighbour rest induction =>
      rcases List.mem_cons.mp member with rfl | later
      · simp [depth, childTrail]
      · exact induction later

/-- What stands below an entry is one level deeper. -/
theorem depth_of_mem_children
    {arena : Arena} {entry child : Entry}
    (member : child ∈ entry.children arena) :
    child.depth = entry.depth + 1 :=
  depth_of_mem_siblings member

theorem length_children (arena : Arena) (entry : Entry) :
    (entry.children arena).length =
      (neighboursAt arena entry.place).length := by
  rw [← List.length_map link, children_eq, map_link_siblings,
    List.length_map]

end Entry

/-! ## The two runs -/

/-- The loop that draws the entries of a stack, for as many entries as it takes. -/
inductive Draws (arena : Arena) :
    List Nat → List Entry → List DrawnEntry → List Nat → Prop where
  | done (expanded : List Nat) : Draws arena expanded [] [] expanded
  | again
      (expanded final : List Nat) (entry : Entry) (stack : List Entry)
      (drawn : List DrawnEntry) (seen : entry.place ∈ expanded)
      (rest : Draws arena expanded stack drawn final) :
      Draws arena expanded (entry :: stack) (⟨entry, true⟩ :: drawn) final
  | fresh
      (expanded final : List Nat) (entry : Entry) (stack : List Entry)
      (drawn : List DrawnEntry) (new : entry.place ∉ expanded)
      (rest :
        Draws arena (expanded ++ [entry.place])
          (entry.children arena ++ stack) drawn final) :
      Draws arena expanded (entry :: stack) (⟨entry, false⟩ :: drawn) final

/-- The recursion that writes the values of places, however deep it goes. -/
inductive Writes (arena : Arena) :
    List Nat → List Nat → List Json.Value → List Nat → Prop where
  | done (expanded : List Nat) : Writes arena expanded [] [] expanded
  | again
      (expanded final : List Nat) (place : Nat) (places : List Nat)
      (values : List Json.Value) (seen : place ∈ expanded)
      (rest : Writes arena expanded places values final) :
      Writes arena expanded (place :: places)
        (repeatedValue (arena.node place).feature :: values) final
  | fresh
      (expanded forward backward final : List Nat) (place : Nat)
      (places : List Nat) (dependsOn dependants values : List Json.Value)
      (new : place ∉ expanded)
      (below :
        Writes arena (expanded ++ [place]) (arena.node place).dependsOn
          dependsOn forward)
      (above :
        Writes arena forward (arena.node place).dependants
          dependants backward)
      (rest : Writes arena backward places values final) :
      Writes arena expanded (place :: places)
        (expandedValue (arena.node place).feature dependsOn dependants ::
          values)
        final

section Runs

variable {arena : Arena} {expanded middle final : List Nat}

theorem Draws.subset
    {stack : List Entry} {drawn : List DrawnEntry}
    (draws : Draws arena expanded stack drawn final) :
    expanded ⊆ final := by
  induction draws with
  | done => exact List.Subset.refl _
  | again _ _ _ _ _ _ _ induction => exact induction
  | fresh _ _ _ _ _ _ _ induction =>
      exact List.Subset.trans (List.subset_append_left _ _) induction

theorem Writes.subset
    {places : List Nat} {values : List Json.Value}
    (writes : Writes arena expanded places values final) :
    expanded ⊆ final := by
  induction writes with
  | done => exact List.Subset.refl _
  | again _ _ _ _ _ _ _ induction => exact induction
  | fresh _ _ _ _ _ _ _ _ _ _ _ _ _ below above rest =>
      exact
        List.Subset.trans (List.subset_append_left _ _)
          (List.Subset.trans below (List.Subset.trans above rest))

/-- What is drawn of one stack after the other is drawn of both together. -/
theorem Draws.append
    {stack later : List Entry} {drawn drawnLater : List DrawnEntry}
    (first : Draws arena expanded stack drawn middle)
    (second : Draws arena middle later drawnLater final) :
    Draws arena expanded (stack ++ later) (drawn ++ drawnLater) final := by
  induction first with
  | done => exact second
  | again _ _ entry _ _ seen _ induction =>
      exact .again _ _ entry _ _ seen (induction second)
  | fresh _ _ entry _ _ new _ induction =>
      have next := induction second
      rw [List.append_assoc] at next
      exact .fresh _ _ entry _ _ new next

/-- A stack is drawn entirely before what lies below it. -/
theorem Draws.split
    {stack later : List Entry} {drawn : List DrawnEntry}
    (draws : Draws arena expanded (stack ++ later) drawn final) :
    ∃ first second middle,
      drawn = first ++ second ∧
        Draws arena expanded stack first middle ∧
          Draws arena middle later second final := by
  generalize together : stack ++ later = whole at draws
  induction draws generalizing stack with
  | done expanded =>
      obtain ⟨rfl, rfl⟩ := List.append_eq_nil_iff.mp together
      exact ⟨[], [], expanded, rfl, .done _, .done _⟩
  | again expanded final entry whole drawn seen rest induction =>
      rcases List.append_eq_cons_iff.mp together with
        ⟨rfl, rfl⟩ | ⟨others, rfl, rfl⟩
      · exact
          ⟨[], _, expanded, rfl, .done _, .again _ _ _ _ _ seen rest⟩
      · obtain ⟨first, second, middle, rfl, here, there⟩ := induction rfl
        exact
          ⟨_, second, middle, rfl, .again _ _ _ _ _ seen here, there⟩
  | fresh expanded final entry whole drawn new rest induction =>
      rcases List.append_eq_cons_iff.mp together with
        ⟨rfl, rfl⟩ | ⟨others, rfl, rfl⟩
      · exact
          ⟨[], _, expanded, rfl, .done _, .fresh _ _ _ _ _ new rest⟩
      · obtain ⟨first, second, middle, rfl, here, there⟩ :=
          induction (List.append_assoc _ _ _)
        exact
          ⟨_, second, middle, rfl, .fresh _ _ _ _ _ new here, there⟩

end Runs

/-! ## What is left to expand -/

/-- The places of an arena that are yet to be expanded. -/
def waiting (arena : Arena) (expanded : List Nat) : List Nat :=
  (List.range arena.size).filter (· ∉ expanded)

/-- The neighbours that are still to come in with the places that wait. -/
def unexplored (arena : Arena) (expanded : List Nat) : List (Relation × Nat) :=
  (waiting arena expanded).flatMap (neighboursAt arena)

theorem mem_waiting
    {arena : Arena} {expanded : List Nat} {place : Nat} :
    place ∈ waiting arena expanded ↔
      place < arena.size ∧ place ∉ expanded := by
  simp [waiting]

theorem nodup_waiting (arena : Arena) (expanded : List Nat) :
    (waiting arena expanded).Nodup :=
  List.nodup_range.filter _

/-- No node, no neighbours. -/
theorem node_of_size_le
    {arena : Arena} {place : Nat} (outside : arena.size ≤ place) :
    arena.node place = default := by
  have missing : arena.node? place = none :=
    List.getElem?_eq_none outside
  rw [Arena.node, missing, Option.getD_none]

/-- Expanding a place takes it from those that wait. -/
theorem waiting_perm
    {arena : Arena} {expanded : List Nat} {place : Nat}
    (inside : place < arena.size) (new : place ∉ expanded) :
    (waiting arena expanded).Perm
      (place :: waiting arena (expanded ++ [place])) := by
  refine
    (List.perm_ext_iff_of_nodup (nodup_waiting _ _)
      (List.nodup_cons.mpr ⟨?_, nodup_waiting _ _⟩)).mpr ?_
  · simp [mem_waiting]
  · intro other
    rw [List.mem_cons, mem_waiting, mem_waiting, List.mem_append,
      List.mem_singleton]
    grind

/-- The more is expanded, the less waits. -/
theorem waiting_sublist
    (arena : Arena) {expanded later : List Nat}
    (more : expanded ⊆ later) :
    (waiting arena later).Sublist (waiting arena expanded) := by
  apply List.monotone_filter_right
  intro place absent
  simp only [decide_eq_true_eq] at absent ⊢
  exact fun seen => absent (more seen)

/-- A place that is expanded takes its neighbours from those that are to come. -/
theorem length_unexplored_add
    (arena : Arena) {expanded : List Nat} {place : Nat}
    (new : place ∉ expanded) :
    (neighboursAt arena place).length +
        (unexplored arena (expanded ++ [place])).length =
      (unexplored arena expanded).length := by
  rcases Nat.lt_or_ge place arena.size with inside | outside
  · have shuffled :=
      (waiting_perm inside new).flatMap_right (neighboursAt arena)
    have counted := shuffled.length_eq
    rw [List.flatMap_cons, List.length_append] at counted
    exact counted.symm
  · have same :
        waiting arena (expanded ++ [place]) = waiting arena expanded := by
      apply List.filter_congr
      intro other listed
      have before := List.mem_range.mp listed
      grind
    have none : neighboursAt arena place = [] := by
      rw [neighboursAt, node_of_size_le outside]
      rfl
    rw [unexplored, same, none, List.length_nil, Nat.zero_add]
    rfl

theorem length_unexplored_nil (arena : Arena) :
    (unexplored arena []).length = Drawing.neighbours arena := by
  have nodes :
      (waiting arena []).map arena.node = arena.nodes := by
    apply List.ext_getElem
    · simp [waiting, Arena.size]
    · intro place inside there
      simp [waiting, Arena.node, Arena.node?,
        List.getElem?_eq_getElem there]
  have gathered :
      unexplored arena [] =
        arena.nodes.flatMap fun node =>
          node.dependsOn.map (Relation.dependsOn, ·) ++
            node.dependants.map (Relation.dependant, ·) := by
    rw [← nodes, List.flatMap_map]
    rfl
  rw [gathered, Drawing.neighbours]
  induction arena.nodes with
  | nil => rfl
  | cons node rest induction =>
      simp [induction, Nat.add_assoc]

/-! ## The bounds suffice -/

/-- Each entry comes off the stack or came in with a place that was expanded. -/
theorem Draws.length_add
    {arena : Arena} {expanded final : List Nat} {stack : List Entry}
    {drawn : List DrawnEntry}
    (draws : Draws arena expanded stack drawn final) :
    drawn.length + (unexplored arena final).length =
      stack.length + (unexplored arena expanded).length := by
  induction draws with
  | done => rfl
  | again _ _ _ _ _ _ _ induction =>
      simp only [List.length_cons]
      omega
  | fresh _ _ entry _ _ new _ induction =>
      have paid := length_unexplored_add arena new
      rw [List.length_append, Entry.length_children] at induction
      simp only [List.length_cons]
      omega

/-- The loop gives what is drawn as soon as its bound allows for as many entries. -/
theorem Draws.draw_eq
    {arena : Arena} {expanded final : List Nat} {stack : List Entry}
    {drawn : List DrawnEntry}
    (draws : Draws arena expanded stack drawn final)
    {count : Nat} (enough : drawn.length ≤ count)
    (before : List DrawnEntry) :
    Drawing.draw arena count ⟨before, expanded⟩ stack =
      ⟨before ++ drawn, final⟩ := by
  induction draws generalizing count before with
  | done expanded =>
      rw [List.append_nil]
      cases count <;> rfl
  | again expanded final entry stack drawn seen _ induction =>
      cases count with
      | zero => cases enough
      | succ count =>
          rw [Drawing.draw, if_pos seen, Drawing.add, if_pos rfl,
            induction (Nat.le_of_succ_le_succ enough),
            List.append_assoc, List.singleton_append]
  | fresh expanded final entry stack drawn new _ induction =>
      cases count with
      | zero => cases enough
      | succ count =>
          rw [Drawing.draw, if_neg new, Drawing.add, if_neg (by simp),
            induction (Nat.le_of_succ_le_succ enough),
            List.append_assoc, List.singleton_append]

/-- The bound for one tree suffices, whatever was expanded before. -/
theorem Draws.drawRoot_eq
    {arena : Arena} {expanded final : List Nat} {root : Nat}
    {drawn : List DrawnEntry}
    (draws : Draws arena expanded [.root root] drawn final)
    (before : List DrawnEntry) :
    Drawing.drawRoot arena ⟨before, expanded⟩ root =
      ⟨before ++ drawn, final⟩ := by
  refine draws.draw_eq ?_ before
  have counted := draws.length_add
  have fewer :
      (unexplored arena expanded).length ≤ Drawing.neighbours arena := by
    rw [← length_unexplored_nil]
    exact
      ((waiting_sublist arena (List.nil_subset expanded)).flatMap _).length_le
  simp only [List.length_singleton] at counted
  omega

/-- Below a place that is expanded there is nothing, or one place less waits. -/
theorem nil_or_waiting_lt
    {arena : Arena} {expanded later neighbours : List Nat}
    {place depth : Nat}
    (reach : (waiting arena expanded).length < depth + 1)
    (new : place ∉ expanded) (more : expanded ++ [place] ⊆ later)
    (none : arena.size ≤ place → neighbours = []) :
    neighbours = [] ∨ (waiting arena later).length < depth := by
  rcases Nat.lt_or_ge place arena.size with inside | outside
  · have fewer := (waiting_perm inside new).length_eq
    have least := (waiting_sublist arena more).length_le
    rw [List.length_cons] at fewer
    exact .inr (by omega)
  · exact .inl (none outside)

/-- The recursion reaches every place as soon as its depth exceeds what waits. -/
theorem writes_mapWith
    {arena : Arena} {depth : Nat} {expanded places : List Nat}
    (enough :
      places = [] ∨ (waiting arena expanded).length < depth) :
    Writes arena expanded places
      (mapWith (nodeValue arena depth) expanded places).1
      (mapWith (nodeValue arena depth) expanded places).2 := by
  -- Down with the depth, and along the places at one depth.
  induction depth generalizing expanded places with
  | zero =>
      rcases enough with rfl | impossible
      · exact .done expanded
      · cases impossible
  | succ depth deeper =>
      induction places generalizing expanded with
      | nil => exact .done expanded
      | cons place places along =>
          have reach : (waiting arena expanded).length < depth + 1 := by
            simpa using enough
          by_cases seen : place ∈ expanded
          · simp only [mapWith, nodeValue, if_pos seen]
            exact .again _ _ place places _ seen (along (.inr reach))
          · have none :
                arena.size ≤ place →
                  (arena.node place).dependsOn = [] ∧
                    (arena.node place).dependants = [] := by
              intro outside
              rw [node_of_size_le outside]
              exact ⟨rfl, rfl⟩
            have below :=
              deeper
                (nil_or_waiting_lt reach seen (List.Subset.refl _)
                  fun outside => (none outside).1)
            have above :=
              deeper
                (nil_or_waiting_lt reach seen below.subset
                  fun outside => (none outside).2)
            have more :=
              List.Subset.trans (List.subset_append_left expanded [place])
                (List.Subset.trans below.subset above.subset)
            have rest :=
              along
                (.inr
                  (Nat.lt_of_le_of_lt
                    (waiting_sublist arena more).length_le reach))
            simp only [mapWith, nodeValue, if_neg seen]
            exact .fresh _ _ _ _ place places _ _ _ seen below above rest

/-- The depth that programs allow suffices for places of an arena. -/
theorem writes_of_size (arena : Arena) (places : List Nat) :
    Writes arena [] places
      (mapWith (nodeValue arena (arena.size + 1)) [] places).1
      (mapWith (nodeValue arena (arena.size + 1)) [] places).2 := by
  refine writes_mapWith (.inr (Nat.lt_succ_of_le ?_))
  calc
    (waiting arena []).length ≤ (List.range arena.size).length :=
      List.length_filter_le _ _
    _ = arena.size := List.length_range

end FeatureAtlas.Output
