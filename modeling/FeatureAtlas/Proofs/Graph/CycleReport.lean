import FeatureAtlas.Proofs.Graph.CatalogOrder
import FeatureAtlas.Proofs.Graph.Components

/-!
# Cycles are the classes of mutual dependence

Two features belong together if each of them depends on the other, directly or
through others.  The reported cycles are the classes of this relation that
have two members or more: a feature that belongs together with another one is
in exactly one of them.  Members of a cycle are in catalog order, and so are
the cycles by their first members.  This module translates what is known of
positions to identities and to the one-hop queries.
-/

namespace FeatureAtlas.Relations

/-! ## Mutual dependence of features -/

/-- Each of two features depends on the other, directly or through others. -/
def Interdependent (relations : Relations) (left right : FeatureId) : Prop :=
  Relation.TransGen relations.DependsOn left right ∧
    Relation.TransGen relations.DependsOn right left

namespace Lawful

variable {relations : Relations}

/-- Dependence through others between identities is that between positions. -/
theorem transGen_dependsOn_iff
    (lawful : relations.Lawful) (source target : FeatureId) :
    Relation.TransGen relations.DependsOn source target ↔
      ∃ left right,
        relations.idAt left = source ∧ relations.idAt right = target ∧
          relations.Leads left right := by
  constructor
  · intro path
    induction path with
    | single stepped =>
        rcases (lawful.dependsOn_iff _ _).mp stepped with
          ⟨left, right, here, there, listed⟩
        exact ⟨left, right, here, there, .single listed⟩
    | tail _ stepped induction =>
        rcases induction with ⟨left, middle, here, via, leads⟩
        rcases (lawful.dependsOn_iff _ _).mp stepped with
          ⟨before, right, same, there, listed⟩
        have met : before = middle :=
          lawful.idAt_injective (lawful.source_lt before right listed)
            (lawful.leads_lt leads).2 (same.trans via.symm)
        subst met
        exact ⟨left, right, here, there, leads.tail listed⟩
  · rintro ⟨left, right, rfl, rfl, leads⟩
    exact leads.lift relations.idAt fun _ _ => lawful.dependsOn_of_step

theorem interdependent_iff
    (lawful : relations.Lawful) (source target : FeatureId) :
    relations.Interdependent source target ↔
      ∃ left right,
        relations.idAt left = source ∧ relations.idAt right = target ∧
          relations.Mutual left right := by
  rw [Interdependent, lawful.transGen_dependsOn_iff,
    lawful.transGen_dependsOn_iff]
  constructor
  · rintro ⟨⟨left, right, here, there, forward⟩, right', left', there', here',
      backward⟩
    have sameLeft : left' = left :=
      lawful.idAt_injective (lawful.leads_lt backward).2
        (lawful.leads_lt forward).1 (here'.trans here.symm)
    have sameRight : right' = right :=
      lawful.idAt_injective (lawful.leads_lt backward).1
        (lawful.leads_lt forward).2 (there'.trans there.symm)
    subst sameLeft sameRight
    exact ⟨left', right', here, there, forward, backward⟩
  · rintro ⟨left, right, here, there, forward, backward⟩
    exact
      ⟨⟨left, right, here, there, forward⟩,
        right, left, there, here, backward⟩

end Lawful

/-! ## The report -/

/-- The cycles of a catalog, told by the one-hop queries alone. -/
structure ListsClasses
    (relations : Relations) (catalog : List Feature) (cycles : List Cycle) :
    Prop where
  members :
    ∀ cycle ∈ cycles, ∀ id ∈ cycle.members,
      ∃ feature ∈ relations.members, feature.id = id
  several : ∀ cycle ∈ cycles, 2 ≤ cycle.members.length
  exact :
    ∀ cycle ∈ cycles, ∀ id ∈ cycle.members, ∀ other,
      other ∈ cycle.members ↔
        other = id ∨ relations.Interdependent id other
  together :
    ∀ left right, left ≠ right →
      ((∃ cycle ∈ cycles, left ∈ cycle.members ∧ right ∈ cycle.members) ↔
        relations.Interdependent left right)
  apart : (cycles.flatMap (·.members)).Nodup
  ordered : ∀ cycle ∈ cycles, InCatalogOrder catalog cycle.members
  sorted : InCatalogOrder catalog (cycles.filterMap (·.members.head?))

namespace Lawful

variable {relations : Relations}

/-- An identity stands in a group where its position does. -/
theorem idAt_mem_map_iff
    (lawful : relations.Lawful) {group : List Nat}
    (grouped : group ∈ relations.groups) {position : Nat}
    (inside : position < relations.size) :
    relations.idAt position ∈ group.map relations.idAt ↔
      position ∈ group := by
  rw [List.mem_map]
  constructor
  · rintro ⟨other, member, same⟩
    have otherInside := lawful.lt_size_of_mem_groups grouped member
    rw [← lawful.idAt_injective otherInside inside same]
    exact member
  · intro member
    exact ⟨position, member, rfl⟩

/-- Two different identities are in one cycle exactly if they depend on each other. -/
theorem exists_cycle_iff
    (lawful : relations.Lawful) {left right : FeatureId}
    (differ : left ≠ right) :
    (∃ cycle ∈ relations.cycles,
        left ∈ cycle.members ∧ right ∈ cycle.members) ↔
      relations.Interdependent left right := by
  rw [lawful.interdependent_iff]
  constructor
  · rintro ⟨cycle, reported, leftIn, rightIn⟩
    rcases (relations.mem_cycles_iff_groups cycle).mp reported with
      ⟨group, grouped, same⟩
    rw [same] at leftIn rightIn
    rcases List.mem_map.mp leftIn with ⟨first, firstIn, rfl⟩
    rcases List.mem_map.mp rightIn with ⟨second, secondIn, rfl⟩
    have apart : first ≠ second := fun equal =>
      differ (congrArg relations.idAt equal)
    exact
      ⟨first, second, rfl, rfl,
        (lawful.exists_group_iff apart).mp
          ⟨group, grouped, firstIn, secondIn⟩⟩
  · rintro ⟨first, second, rfl, rfl, both⟩
    have apart : first ≠ second := fun equal =>
      differ (congrArg relations.idAt equal)
    rcases (lawful.exists_group_iff apart).mpr both with
      ⟨group, grouped, firstIn, secondIn⟩
    exact
      ⟨⟨group.map relations.idAt⟩,
        (relations.mem_cycles_iff_groups _).mpr ⟨group, grouped, rfl⟩,
        List.mem_map_of_mem firstIn, List.mem_map_of_mem secondIn⟩

/-- A cycle holds whatever belongs together with one of its members. -/
theorem mem_cycle_iff
    (lawful : relations.Lawful) {cycle : Cycle}
    (reported : cycle ∈ relations.cycles) {id : FeatureId}
    (member : id ∈ cycle.members) (other : FeatureId) :
    other ∈ cycle.members ↔
      other = id ∨ relations.Interdependent id other := by
  constructor
  · intro otherIn
    by_cases same : other = id
    · exact Or.inl same
    · have apart : id ≠ other := fun equal => same equal.symm
      exact
        Or.inr
          ((lawful.exists_cycle_iff apart).mp
            ⟨cycle, reported, member, otherIn⟩)
  · rintro (rfl | both)
    · exact member
    · rcases (relations.mem_cycles_iff_groups cycle).mp reported with
        ⟨group, grouped, same⟩
      rcases (lawful.interdependent_iff id other).mp both with
        ⟨first, second, rfl, rfl, positions⟩
      rcases lawful.leads_lt positions.1 with ⟨inside, otherInside⟩
      rw [same] at member ⊢
      have firstIn := (lawful.idAt_mem_map_iff grouped inside).mp member
      rcases (lawful.mem_groups_iff inside firstIn).mp grouped with ⟨rfl, -⟩
      apply List.mem_map_of_mem
      exact
        (lawful.mem_classAt inside second).mpr
          ⟨otherInside, Or.inr positions⟩

/-- A cycle has two different members. -/
theorem exists_pair_of_mem_cycles
    (lawful : relations.Lawful) {cycle : Cycle}
    (reported : cycle ∈ relations.cycles) :
    ∃ left ∈ cycle.members, ∃ right ∈ cycle.members, left ≠ right := by
  obtain ⟨group, grouped, same⟩ :=
    (relations.mem_cycles_iff_groups cycle).mp reported
  have distinct : group.Nodup :=
    (List.nodup_flatten.mp lawful.nodup_flatten_groups).1 group grouped
  obtain ⟨position, -, found⟩ := List.mem_filterMap.mp grouped
  have several : 2 ≤ group.length := (groupAt?_eq_some found).2.2
  rw [same]
  match group, several with
  | first :: second :: rest, _ =>
      have firstInside : first < relations.size :=
        lawful.lt_size_of_mem_groups grouped (by simp)
      have secondInside : second < relations.size :=
        lawful.lt_size_of_mem_groups grouped (by simp)
      refine
        ⟨relations.idAt first, by simp, relations.idAt second, by simp, ?_⟩
      intro equal
      have met := lawful.idAt_injective firstInside secondInside equal
      simp [met] at distinct

/-- No identity is in two cycles, or in one of them twice. -/
theorem nodup_flatMap_cycles (lawful : relations.Lawful) :
    (relations.cycles.flatMap (·.members)).Nodup := by
  have flattened :
      relations.cycles.flatMap (·.members) =
        relations.groups.flatten.map relations.idAt := by
    rw [cycles_eq_map_groups, List.flatMap_map, List.map_flatten,
      List.flatMap_def]
  rw [flattened]
  apply List.Nodup.map_on ?_ lawful.nodup_flatten_groups
  intro left leftIn right rightIn same
  rcases List.mem_flatten.mp leftIn with ⟨first, firstIn, here⟩
  rcases List.mem_flatten.mp rightIn with ⟨second, secondIn, there⟩
  exact
    lawful.idAt_injective (lawful.lt_size_of_mem_groups firstIn here)
      (lawful.lt_size_of_mem_groups secondIn there) same

end Lawful

section Report

variable {policy : ConflictPolicy} {catalog : List Feature} {scope : Scope}
variable {ledger : Ledger} {relations : Relations}

theorem inCatalogOrder_of_mem_cycles
    (built : build policy catalog scope ledger = .ok relations)
    {cycle : Cycle} (reported : cycle ∈ relations.cycles) :
    InCatalogOrder catalog cycle.members := by
  have lawful := lawful_of_build built
  rcases (relations.mem_cycles_iff_groups cycle).mp reported with
    ⟨group, grouped, same⟩
  rcases List.mem_filterMap.mp grouped with ⟨first, -, found⟩
  rcases groupAt?_eq_some found with ⟨class_eq, -⟩
  rw [same, InCatalogOrder, List.pairwise_map]
  have ascending : group.Pairwise (· < ·) := by
    rw [class_eq]
    exact pairwise_classAt relations first
  refine ascending.imp_of_mem ?_
  intro left right _ rightIn before
  exact
    idxOf_idAt_lt built before (lawful.lt_size_of_mem_groups grouped rightIn)

/-- The first members of the cycles are in catalog order. -/
theorem inCatalogOrder_heads
    (built : build policy catalog scope ledger = .ok relations) :
    InCatalogOrder catalog
      (relations.cycles.filterMap (·.members.head?)) := by
  have lawful := lawful_of_build built
  rw [cycles_eq_map_groups, List.filterMap_map, InCatalogOrder,
    List.pairwise_filterMap]
  refine relations.pairwise_groups.imp_of_mem ?_
  intro left right leftIn rightIn ascend id here other there
  simp only [Function.comp_apply, List.head?_map,
    Option.map_eq_some_iff] at here there
  rcases here with ⟨first, leading, rfl⟩
  rcases there with ⟨second, following, rfl⟩
  exact
    idxOf_idAt_lt built (ascend first leading second following)
      (lawful.lt_size_of_mem_groups rightIn (List.mem_of_head? following))

/--
The reported cycles are the classes of two or more members that depend on each
other, in catalog order inside and among each other; and every search for the
strongly connected components of the dependencies leads to this report.
-/
theorem cycles_list_classes
    (built : build policy catalog scope ledger = .ok relations) :
    relations.ListsClasses catalog relations.cycles ∧
      ∀ search : Digraph → List (List Nat),
        relations.digraph.SplitsInto (search relations.digraph) →
          relations.cyclesBy search = relations.cycles := by
  have lawful := lawful_of_build built
  refine
    ⟨{ members := ?members
       several := ?several
       exact := fun cycle reported id member =>
         lawful.mem_cycle_iff reported member
       together := fun left right => lawful.exists_cycle_iff
       apart := lawful.nodup_flatMap_cycles
       ordered := fun cycle => inCatalogOrder_of_mem_cycles built
       sorted := inCatalogOrder_heads built },
      fun search => lawful.cyclesBy_eq⟩
  case members =>
    intro cycle reported id member
    rcases (relations.mem_cycles_iff_groups cycle).mp reported with
      ⟨group, grouped, same⟩
    rw [same] at member
    rcases List.mem_map.mp member with ⟨position, here, rfl⟩
    rcases exists_member? (lawful.lt_size_of_mem_groups grouped here) with
      ⟨feature, located⟩
    exact
      ⟨feature, List.mem_of_getElem? located,
        (idAt_of_member? located).symm⟩
  case several =>
    intro cycle reported
    rcases (relations.mem_cycles_iff_groups cycle).mp reported with
      ⟨group, grouped, same⟩
    rcases List.mem_filterMap.mp grouped with ⟨first, -, found⟩
    rw [same, List.length_map]
    exact (groupAt?_eq_some found).2.2

end Report

/-! ### Two rings -/

/-- A ring of two features around a ring of three, and a copy in another version. -/
def ringCatalog : List Feature :=
  [⟨⟨"Shop", "", "Offer", "1"⟩, ["offer"]⟩,
    ⟨⟨"Shop", "", "Cart", "1"⟩, ["cart"]⟩,
    ⟨⟨"Shop", "", "Cart", "2"⟩, ["cart"]⟩,
    ⟨⟨"Shop", "", "Stock", "1"⟩, ["stock"]⟩,
    ⟨⟨"Shop", "", "Order", "1"⟩, ["order"]⟩,
    ⟨⟨"Shop", "", "Price", "1"⟩, ["price"]⟩]

/-- The calls between them; the outer ring also calls the inner one. -/
def ringLedger : Ledger :=
  .ofList
    [("order", ["cart"]), ("cart", ["stock"]), ("stock", ["order"]),
      ("price", ["offer", "cart"]), ("offer", ["price"])]

/-- The components of the first version as a search lists them, each from its end. -/
def ringComponents : List (List Nat) :=
  [[3, 2, 1], [4, 0]]

/-- What is reported of them. -/
def ringCycles : List Cycle :=
  [⟨[⟨"Shop", "", "Offer", "1"⟩, ⟨"Shop", "", "Price", "1"⟩]⟩,
    ⟨[⟨"Shop", "", "Cart", "1"⟩, ⟨"Shop", "", "Stock", "1"⟩,
      ⟨"Shop", "", "Order", "1"⟩]⟩]

/-- Both rings are reported, in catalog order, from components that are not. -/
theorem cycles_list_classes_of_rings :
    ∃ relations,
      build .firstWins ringCatalog ⟨"Shop", "1"⟩ ringLedger =
          .ok relations ∧
        relations.ListsClasses ringCatalog relations.cycles ∧
          relations.digraph.SplitsInto ringComponents ∧
            relations.cyclesBy (fun _ => ringComponents) =
                relations.cycles ∧
              relations.cycles = ringCycles := by
  have built :
      ∃ relations,
        build .firstWins ringCatalog ⟨"Shop", "1"⟩ ringLedger =
            .ok relations ∧
          relations.size = 5 ∧
            (∀ component ∈ ringComponents, ∀ node ∈ component, ∀ other < 5,
              other ∈ component ↔
                other ∈ relations.classAt relations.reach node) ∧
              relations.cycles = ringCycles :=
    ⟨_, rfl, rfl, by decide, rfl⟩
  rcases built with ⟨relations, built, sized, classes, reported⟩
  have lawful := lawful_of_build built
  have splits : relations.digraph.SplitsInto ringComponents := by
    constructor
    case shared =>
      have bound : relations.digraph.size = 5 := sized
      rw [bound]
      decide
    case together =>
      intro component listed node member other inside
      have nodeInside : node < relations.size := by
        rw [sized]
        have small :
            ∀ component ∈ ringComponents, ∀ node ∈ component, node < 5 := by
          decide
        exact small component listed node member
      rw [← lawful.mem_classAt_iff_joins nodeInside inside]
      exact classes component listed node member other (sized ▸ inside)
  rcases cycles_list_classes built with ⟨lists, agrees⟩
  exact
    ⟨relations, built, lists, splits, agrees (fun _ => ringComponents) splits,
      reported⟩

end FeatureAtlas.Relations
