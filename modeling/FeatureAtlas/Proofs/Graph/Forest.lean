import FeatureAtlas.Proofs.Graph.CatalogOrder
import FeatureAtlas.Proofs.Graph.FeatureGraph

/-!
# The forest of several scopes

The roots of several scopes are brought into catalog order and then grown one
after the other into one arena.  Between two roots the arena is finished:
every node that an earlier root has left behind carries its complete lists,
so a later root that already has a node adds nothing to it.  Which features
the arena holds, and which roots the forest lists, is therefore determined by
the one-hop queries of the scopes alone.
-/

namespace FeatureAtlas

/-- A member is a root if nothing depends on it. -/
def Relations.IsRoot (relations : Relations) (id : FeatureId) : Prop :=
  relations.directDependents id = .ok []

instance (relations : Relations) (id : FeatureId) :
    Decidable (relations.IsRoot id) :=
  inferInstanceAs (Decidable (relations.directDependents id = .ok []))

/-- The identity of a root. -/
def ScopeRoot.id (root : ScopeRoot) : FeatureId :=
  root.relations.idAt root.position

namespace Relations

theorem Connected.symm
    {relations : Relations} {left right : FeatureId}
    (connected : relations.Connected left right) :
    relations.Connected right left := by
  induction connected with
  | refl => exact .refl
  | tail _ adjacent induction => exact .head adjacent.symm induction

/-- Roots are the members without positions that depend on them. -/
theorem Lawful.isRoot_iff
    {relations : Relations} (lawful : relations.Lawful) (id : FeatureId) :
    relations.IsRoot id ↔
      ∃ position ∈ relations.rootPositions, relations.idAt position = id := by
  constructor
  · intro root
    cases placed : relations.position id with
    | error problem =>
        rw [IsRoot, directDependents, placed] at root
        cases root
    | ok position =>
        obtain ⟨inside, rfl⟩ :=
          (lawful.position_eq_ok_iff id position).mp placed
        obtain ⟨dependents, answered, ids⟩ :=
          lawful.directDependents_idAt inside
        rw [IsRoot, answered, Except.ok.injEq] at root
        subst root
        have none : relations.dependentsAt position = [] :=
          List.map_eq_nil_iff.mp ids.symm
        refine ⟨position, ?_, rfl⟩
        simpa [rootPositions, none] using inside
  · rintro ⟨position, listed, rfl⟩
    simp only [rootPositions, List.mem_filter, List.mem_range,
      List.isEmpty_iff] at listed
    rcases listed with ⟨inside, none⟩
    obtain ⟨dependents, answered, ids⟩ := lawful.directDependents_idAt inside
    rw [none, List.map_nil, List.map_eq_nil_iff] at ids
    rw [IsRoot, answered, ids]

theorem lt_size_of_mem_rootPositions
    {relations : Relations} {position : Nat}
    (listed : position ∈ relations.rootPositions) :
    position < relations.size := by
  simpa using List.mem_of_mem_filter listed

/-- Relations that were built for different scopes form a family. -/
theorem family_of_built
    {catalog : List Feature} {built : List Relations}
    (each :
      ∀ relations ∈ built,
        ∃ policy scope ledger,
          build policy catalog scope ledger = .ok relations)
    (apart : (built.map (·.scope)).Nodup) :
    Family built where
  lawful := by
    intro relations member
    obtain ⟨policy, scope, ledger, made⟩ := each relations member
    exact lawful_of_build made
  apart := by
    intro left leftIn right rightIn same
    exact List.inj_on_of_nodup_map apart leftIn rightIn same

end Relations

namespace Forest

/-! ## Roots in catalog order -/

theorem mem_rootsOf (built : List Relations) (root : ScopeRoot) :
    root ∈ rootsOf built ↔
      root.relations ∈ built ∧
        root.position ∈ root.relations.rootPositions := by
  rw [rootsOf, Sorting.mem_sortBy, List.mem_flatMap]
  constructor
  · rintro ⟨relations, member, listed⟩
    rcases List.mem_map.mp listed with ⟨position, inside, rfl⟩
    exact ⟨member, inside⟩
  · rintro ⟨member, inside⟩
    exact ⟨root.relations, member, List.mem_map.mpr ⟨_, inside, rfl⟩⟩

theorem mem_map_id_rootsOf
    {built : List Relations} (family : Relations.Family built)
    (id : FeatureId) :
    id ∈ (rootsOf built).map ScopeRoot.id ↔
      ∃ relations ∈ built, relations.IsRoot id := by
  rw [List.mem_map]
  constructor
  · rintro ⟨root, member, rfl⟩
    obtain ⟨relationsIn, listed⟩ := (mem_rootsOf built root).mp member
    have lawful := family.lawful root.relations relationsIn
    exact
      ⟨root.relations, relationsIn,
        (lawful.isRoot_iff _).mpr ⟨root.position, listed, rfl⟩⟩
  · rintro ⟨relations, relationsIn, isRoot⟩
    obtain ⟨position, listed, here⟩ :=
      ((family.lawful relations relationsIn).isRoot_iff id).mp isRoot
    exact
      ⟨⟨relations, position⟩,
        (mem_rootsOf built _).mpr ⟨relationsIn, listed⟩, here⟩

/-- No feature is a root twice, in one scope or in two. -/
theorem nodup_map_id_rootsOf
    {built : List Relations} (family : Relations.Family built)
    (apart : (built.map (·.scope)).Nodup) :
    ((rootsOf built).map ScopeRoot.id).Nodup := by
  have shuffled :
      ((rootsOf built).map ScopeRoot.id).Perm
        (built.flatMap fun relations =>
          relations.rootPositions.map relations.idAt) := by
    refine ((Sorting.sortBy_perm _ _).map _).trans (.of_eq ?_)
    rw [List.map_flatMap]
    simp only [List.map_map]
    rfl
  rw [shuffled.nodup_iff, List.nodup_flatMap]
  constructor
  · intro relations member
    refine List.Nodup.map_on ?_ (List.nodup_range.filter _)
    intro left leftIn right rightIn same
    exact
      (family.lawful relations member).idAt_injective
        (Relations.lt_size_of_mem_rootPositions leftIn)
        (Relations.lt_size_of_mem_rootPositions rightIn) same
  · refine (List.pairwise_map.mp apart).imp_of_mem ?_
    intro left right leftIn rightIn differ id here there
    rcases List.mem_map.mp here with ⟨first, firstIn, rfl⟩
    rcases List.mem_map.mp there with ⟨second, secondIn, same⟩
    apply differ
    calc
      left.scope = (left.idAt first).scope :=
        ((family.lawful left leftIn).idAt_scope
          (Relations.lt_size_of_mem_rootPositions firstIn)).symm
      _ = (right.idAt second).scope := by rw [same]
      _ = right.scope :=
        (family.lawful right rightIn).idAt_scope
          (Relations.lt_size_of_mem_rootPositions secondIn)

theorem precedes_iff (left right : ScopeRoot) :
    left.precedes right = true ↔ left.place ≤ right.place := by
  simp [ScopeRoot.precedes]

theorem pairwise_place_rootsOf (built : List Relations) :
    (rootsOf built).Pairwise fun left right => left.place ≤ right.place := by
  have ordered :
      (rootsOf built).Pairwise fun left right =>
        left.precedes right = true := by
    refine Sorting.pairwise_sortBy ?_ ?_ _
    · intro left right
      simp only [precedes_iff]
      exact Nat.le_total left.place right.place
    · intro first second third
      simp only [precedes_iff]
      exact Nat.le_trans
  exact ordered.imp (precedes_iff _ _).mp

/-- The place of a root is that of the first copy of its identity. -/
theorem place_eq_idxOf
    {catalog : List Feature} {built : List Relations}
    (each :
      ∀ relations ∈ built,
        ∃ policy scope ledger,
          Relations.build policy catalog scope ledger = .ok relations)
    {root : ScopeRoot} (member : root ∈ rootsOf built) :
    root.place = (catalogIds catalog).idxOf root.id ∧
      root.id ∈ catalogIds catalog := by
  obtain ⟨relationsIn, listed⟩ := (mem_rootsOf built root).mp member
  obtain ⟨policy, scope, ledger, made⟩ := each root.relations relationsIn
  exact
    Relations.placeAt_eq_idxOf made
      (Relations.lt_size_of_mem_rootPositions listed)

/-- The roots come in the order of their first copies in the catalog. -/
theorem map_id_rootsOf
    {catalog : List Feature} {built : List Relations}
    (each :
      ∀ relations ∈ built,
        ∃ policy scope ledger,
          Relations.build policy catalog scope ledger = .ok relations)
    (apart : (built.map (·.scope)).Nodup) :
    (rootsOf built).map ScopeRoot.id =
      (Distinct.ofList (catalogIds catalog)).filter fun id =>
        ∃ relations ∈ built, relations.IsRoot id := by
  have family := Relations.family_of_built each apart
  have sorted :
      ((rootsOf built).map ScopeRoot.id).Pairwise fun left right =>
        (catalogIds catalog).idxOf left ≤
          (catalogIds catalog).idxOf right := by
    refine List.pairwise_map.mpr ?_
    refine (pairwise_place_rootsOf built).imp_of_mem ?_
    intro left right leftIn rightIn before
    rw [(place_eq_idxOf each leftIn).1, (place_eq_idxOf each rightIn).1]
      at before
    exact before
  have listed :
      ((Distinct.ofList (catalogIds catalog)).filter fun id =>
          ∃ relations ∈ built, relations.IsRoot id).Pairwise
        fun left right =>
          (catalogIds catalog).idxOf left ≤
            (catalogIds catalog).idxOf right := by
    refine List.Pairwise.filter _ ?_
    exact (Distinct.pairwise_idxOf_ofList _).imp Nat.le_of_lt
  refine List.Perm.eq_of_pairwise ?_ sorted listed ?_
  · intro left right leftIn _ forward backward
    rcases List.mem_map.mp leftIn with ⟨root, member, rfl⟩
    exact
      (List.idxOf_inj (place_eq_idxOf each member).2).mp
        (Nat.le_antisymm forward backward)
  · refine
      (List.perm_ext_iff_of_nodup (nodup_map_id_rootsOf family apart)
        ((Distinct.nodup_ofList _).filter _)).mpr ?_
    intro id
    rw [List.mem_filter, decide_eq_true_iff, Distinct.mem_ofList,
      mem_map_id_rootsOf family]
    constructor
    · intro isRoot
      refine ⟨?_, isRoot⟩
      obtain ⟨root, member, rfl⟩ :=
        List.mem_map.mp ((mem_map_id_rootsOf family id).mpr isRoot)
      exact (place_eq_idxOf each member).2
    · exact And.right

/-! ## One root after the other -/

/-- The state of the forest after the roots in `done`. -/
structure Grown
    (family : List Relations) (done : List ScopeRoot) (forest : Forest) :
    Prop where
  finished : forest.arena.Finished family
  roots : forest.arena.LeadTo forest.roots (done.map ScopeRoot.id)
  mem_iff :
    ∀ id,
      id ∈ forest.arena.features ↔
        ∃ root ∈ done, root.relations.Connected root.id id

theorem grown_empty (family : List Relations) :
    Grown family [] Forest.empty where
  finished := Relations.finished_empty family
  roots := rfl
  mem_iff := by simp [Forest.empty]

/-- A root adds what is connected to it, whether or not it has a node yet. -/
theorem Grown.grow
    {family : List Relations} {done : List ScopeRoot} {forest : Forest}
    (grown : Grown family done forest) (distinct : Relations.Family family)
    {root : ScopeRoot} (member : root.relations ∈ family)
    (inside : root.position < root.relations.size) :
    Grown family (done ++ [root]) (forest.grow root) := by
  have next := grown.finished.grow distinct member inside
  refine ⟨next.finished, ?_, ?_⟩
  · have before := grown.roots.mono next.grown
    have here := next.root
    simp only [Arena.LeadTo, Forest.grow, List.map_append,
      List.map_cons, List.map_nil] at before here ⊢
    rw [before, here]
    rfl
  · intro id
    have met := next.mem_iff id
    rw [grown.mem_iff id] at met
    refine met.trans ?_
    constructor
    · rintro (⟨earlier, earlierIn, connected⟩ | connected)
      · exact ⟨earlier, List.mem_append_left _ earlierIn, connected⟩
      · exact ⟨root, by simp, connected⟩
    · rintro ⟨other, otherIn, connected⟩
      rcases List.mem_append.mp otherIn with earlier | last
      · exact Or.inl ⟨other, earlier, connected⟩
      · rw [List.mem_singleton.mp last] at connected
        exact Or.inr connected

theorem Grown.foldl
    {family : List Relations} {done : List ScopeRoot} {forest : Forest}
    (grown : Grown family done forest) (distinct : Relations.Family family)
    (rest : List ScopeRoot)
    (among :
      ∀ root ∈ rest,
        root.relations ∈ family ∧ root.position < root.relations.size) :
    Grown family (done ++ rest) (rest.foldl Forest.grow forest) := by
  induction rest generalizing done forest with
  | nil => simpa using grown
  | cons root rest induction =>
      obtain ⟨member, inside⟩ := among root (by simp)
      have others :
          ∀ root ∈ rest,
            root.relations ∈ family ∧
              root.position < root.relations.size :=
        fun other otherIn => among other (by simp [otherIn])
      rw [List.append_cons]
      exact induction (grown.grow distinct member inside) others

/-- The forest after all roots. -/
theorem grown_ofScopes
    {built : List Relations} (distinct : Relations.Family built) :
    Grown built (rootsOf built) (ofScopes built) := by
  refine (grown_empty built).foldl distinct (rootsOf built) ?_
  intro root member
  obtain ⟨relationsIn, listed⟩ := (mem_rootsOf built root).mp member
  exact ⟨relationsIn, Relations.lt_size_of_mem_rootPositions listed⟩

/-! ## What a forest shows -/

/-- The forest of several scopes in one catalog, told by their one-hop queries. -/
structure Covers
    (forest : Forest) (catalog : List Feature) (built : List Relations) :
    Prop where
  roots :
    forest.arena.LeadTo forest.roots
      ((Distinct.ofList (catalogIds catalog)).filter fun id =>
        ∃ relations ∈ built, relations.IsRoot id)
  once : forest.arena.features.Nodup
  exact :
    ∀ id,
      id ∈ forest.arena.features ↔
        ∃ relations ∈ built,
          (∃ member ∈ relations.members, member.id = id) ∧
            ∃ root, relations.IsRoot root ∧ relations.Connected id root
  complete :
    ∀ node ∈ forest.arena.nodes,
      ∃ relations ∈ built,
        relations.scope = node.feature.scope ∧
          forest.arena.Answers relations node

/--
The forest lists the roots of all scopes once each and in catalog order, and
its arena holds one complete node for each feature that is connected to a root.
-/
theorem ofScopes_covers_roots
    {catalog : List Feature} {built : List Relations}
    (each :
      ∀ relations ∈ built,
        ∃ policy scope ledger,
          Relations.build policy catalog scope ledger = .ok relations)
    (apart : (built.map (·.scope)).Nodup) :
    (ofScopes built).Covers catalog built := by
  have family := Relations.family_of_built each apart
  have grown := grown_ofScopes family
  refine ⟨?roots, grown.finished.indexed.nodup, ?exact, ?complete⟩
  case roots =>
    rw [← map_id_rootsOf each apart]
    exact grown.roots
  case exact =>
    intro id
    rw [grown.mem_iff id]
    constructor
    · rintro ⟨root, member, connected⟩
      obtain ⟨relationsIn, listed⟩ := (mem_rootsOf built root).mp member
      have lawful := family.lawful root.relations relationsIn
      obtain ⟨feature, located⟩ :=
        Relations.exists_member?
          (Relations.lt_size_of_mem_rootPositions listed)
      have here : root.id = feature.id := Relations.idAt_of_member? located
      refine ⟨root.relations, relationsIn, ?_, root.id, ?_, connected.symm⟩
      · rw [here] at connected
        exact
          lawful.exists_member_of_connected
            (List.mem_of_getElem? located) connected
      · exact (lawful.isRoot_iff _).mpr ⟨root.position, listed, rfl⟩
    · rintro ⟨relations, relationsIn, -, root, isRoot, connected⟩
      obtain ⟨position, listed, rfl⟩ :=
        ((family.lawful relations relationsIn).isRoot_iff root).mp isRoot
      exact
        ⟨⟨relations, position⟩,
          (mem_rootsOf built _).mpr ⟨relationsIn, listed⟩, connected.symm⟩
  case complete =>
    intro node nodeIn
    obtain ⟨relations, relationsIn, expanded⟩ :=
      grown.finished.settled node nodeIn
    have lawful := family.lawful relations relationsIn
    refine ⟨relations, relationsIn, ?_, expanded.answers lawful⟩
    rcases expanded with ⟨position, inside, same, -, -⟩
    rw [← same]
    exact (lawful.idAt_scope inside).symm

/-- Two versions whose features alternate in the catalog; the one with a loop has one root. -/
theorem ofScopes_covers_roots_of_versions :
    ∃ first second,
      Relations.build .firstWins Relations.loopCatalog ⟨"Shop", "1"⟩
          Relations.loopLedger =
            .ok first ∧
        Relations.build .reject Relations.loopCatalog ⟨"Shop", "2"⟩ .empty =
            .ok second ∧
          (ofScopes [first, second]).Covers Relations.loopCatalog
            [first, second] ∧
            (ofScopes [first, second]).arena.LeadTo
              (ofScopes [first, second]).roots
              [⟨"Shop", "", "Cart", "2"⟩, ⟨"Shop", "", "Help", "1"⟩] := by
  refine ⟨_, _, rfl, rfl, ofScopes_covers_roots ?each (by decide), rfl⟩
  case each =>
    intro relations member
    rcases List.mem_cons.mp member with rfl | last
    · exact ⟨.firstWins, ⟨"Shop", "1"⟩, Relations.loopLedger, rfl⟩
    · rw [List.mem_singleton.mp last]
      exact ⟨.reject, ⟨"Shop", "2"⟩, .empty, rfl⟩

end Forest

end FeatureAtlas
