import FeatureAtlas.Graph.Cycles
import FeatureAtlas.Proofs.Distinct
import FeatureAtlas.Proofs.Graph.Portraits

/-!
# Slices of a catalog

Relations look at the features of their own scope only.  So they may as well be
built from these alone: nothing changes but the places that are kept for the
sake of catalog order.  In a forest of many scopes each scope therefore has the
roots and the nodes that it has in a forest of its own.
-/

namespace FeatureAtlas

/-- The features of a scope, as they stand in a catalog. -/
def featuresOf (scope : Scope) (catalog : List Feature) : List Feature :=
  catalog.filter fun feature => feature.id.inScope scope

/-! ## Members -/

namespace Membership

/-- Two memberships have the same members, wherever these stand. -/
structure SameMembers (left right : Membership) : Prop where
  members : left.members = right.members
  positions : left.positions = right.positions

/-- A feature is enlisted alike from any two places. -/
theorem SameMembers.enlist
    {left right : Membership} (same : left.SameMembers right)
    (scope : Scope) (feature : Feature) (place other : Nat) :
    (enlist scope left (feature, place)).SameMembers
      (enlist scope right (feature, other)) := by
  unfold Membership.enlist
  simp only [same.positions]
  split
  · exact same
  · refine ⟨?_, ?_⟩
    · simp only [same.members]
    · simp only [same.members]

theorem SameMembers.foldl
    {left right : Membership} (same : left.SameMembers right)
    (scope : Scope) (catalog : List Feature) (place other : Nat) :
    ((catalog.zipIdx place).foldl (Membership.enlist scope) left).SameMembers
      (((featuresOf scope catalog).zipIdx other).foldl
        (Membership.enlist scope) right) := by
  induction catalog generalizing left right place other with
  | nil => exact same
  | cons feature catalog induction =>
      by_cases inside : feature.id.inScope scope = true
      · have kept :
            featuresOf scope (feature :: catalog) =
              feature :: featuresOf scope catalog :=
          List.filter_cons_of_pos inside
        rw [kept]
        exact
          induction (same.enlist scope feature place other) (place + 1)
            (other + 1)
      · have passed :
            Membership.enlist scope left (feature, place) = left :=
          if_pos (by simp [inside])
        have dropped :
            featuresOf scope (feature :: catalog) = featuresOf scope catalog :=
          List.filter_cons_of_neg inside
        rw [dropped, List.zipIdx_cons, List.foldl_cons, passed]
        exact induction same (place + 1) other

/-- The members of a scope are found among its features. -/
theorem ofCatalog_featuresOf (scope : Scope) (catalog : List Feature) :
    (ofCatalog scope catalog).SameMembers
      (ofCatalog scope (featuresOf scope catalog)) :=
  SameMembers.foldl ⟨rfl, rfl⟩ scope catalog 0 0

end Membership

/-! ## Relations -/

namespace Relations

/-- The relations with other places in the catalog. -/
def withPlaces (relations : Relations) (places : List Nat) : Relations :=
  { relations with membership := { relations.membership with places := places } }

/-- Relations that are built from the features of the scope alone differ in places only. -/
theorem build_featuresOf
    (policy : ConflictPolicy) (catalog : List Feature) (scope : Scope)
    (ledger : Ledger) :
    build policy catalog scope ledger =
      (build policy (featuresOf scope catalog) scope ledger).map
        (·.withPlaces (Membership.ofCatalog scope catalog).places) := by
  have same := Membership.ofCatalog_featuresOf scope catalog
  have whole :
      Membership.ofCatalog scope catalog =
        ⟨(Membership.ofCatalog scope (featuresOf scope catalog)).members,
          (Membership.ofCatalog scope catalog).places,
          (Membership.ofCatalog scope (featuresOf scope catalog)).positions⟩ := by
    rw [← same.members, ← same.positions]
  dsimp only [build]
  rw [same.members]
  cases
    Ownership.build policy
      (Membership.ofCatalog scope (featuresOf scope catalog)).members with
  | error problem => rfl
  | ok ownership =>
      refine congrArg Except.ok ?_
      simp only [withPlaces]
      rw [← whole]

section Places

variable (relations : Relations) (places : List Nat)

theorem search_withPlaces (steps : Nat) (state : List Nat × List Nat) :
    (relations.withPlaces places).search steps state =
      relations.search steps state := by
  induction steps generalizing state with
  | zero => rfl
  | succ steps induction =>
      rcases state with ⟨found, pending⟩
      cases pending with
      | nil => rfl
      | cons position pending => exact induction _

/-- Cycles do not depend on places. -/
theorem cycles_withPlaces :
    (relations.withPlaces places).cycles = relations.cycles := by
  have reached :
      (relations.withPlaces places).reachable = relations.reachable :=
    funext fun position => search_withPlaces relations places _ _
  rw [cycles, reached]
  rfl

theorem meetAll_withPlaces (positions : List Nat) (growth : Growth) :
    growth.meetAll (relations.withPlaces places) positions =
      growth.meetAll relations positions := by
  induction positions generalizing growth with
  | nil => rfl
  | cons position rest induction =>
      have met :
          growth.meet (relations.withPlaces places) position =
            growth.meet relations position :=
        rfl
      simp only [Growth.meetAll, met, induction]

theorem expand_withPlaces (growth : Growth) (position place : Nat) :
    growth.expand (relations.withPlaces places) position place =
      growth.expand relations position place := by
  simp only [Growth.expand, meetAll_withPlaces]
  rfl

theorem run_withPlaces (steps : Nat) (growth : Growth) :
    growth.run (relations.withPlaces places) steps =
      growth.run relations steps := by
  induction steps generalizing growth with
  | zero => rfl
  | succ steps induction =>
      rcases growth with ⟨arena, pending⟩
      cases pending with
      | nil => rfl
      | cons entry pending =>
          rw [Growth.run, Growth.run]
          simp only [expand_withPlaces, induction]

/-- Graphs do not depend on places either. -/
theorem graph_withPlaces :
    (relations.withPlaces places).graph = relations.graph := by
  have grown :
      (relations.withPlaces places).growInto = relations.growInto := by
    funext arena position
    simp only [growInto, run_withPlaces]
    rfl
  funext id
  rw [graph, grown]
  rfl

end Places

end Relations

/-! ## Forests -/

/--
A forest shows of one scope what another forest shows: its roots in the same
order, and its nodes with the same neighbours in the same order.
-/
structure Forest.ShowsOf
    (scope : Scope) (wide narrow : Forest) : Prop where
  roots : (wide.rootIds.filter fun id => id.scope = scope) = narrow.rootIds
  nodes :
    (wide.arena.portraits.filter fun portrait =>
        portrait.feature.scope = scope).Perm
      narrow.arena.portraits

namespace Relations

variable {relations : Relations}

theorem Lawful.scope_of_isRoot
    (lawful : relations.Lawful) {id : FeatureId}
    (root : relations.IsRoot id) :
    id.scope = relations.scope := by
  obtain ⟨position, listed, rfl⟩ := (lawful.isRoot_iff id).mp root
  exact lawful.idAt_scope (lt_size_of_mem_rootPositions listed)

/-- What is connected to a root is of the same scope. -/
theorem Lawful.scope_of_connected
    (lawful : relations.Lawful) {position : Nat}
    (listed : position ∈ relations.rootPositions) {id : FeatureId}
    (connected : relations.Connected (relations.idAt position) id) :
    id.scope = relations.scope := by
  obtain ⟨feature, located⟩ :=
    exists_member? (lt_size_of_mem_rootPositions listed)
  rw [idAt_of_member? located] at connected
  obtain ⟨member, memberIn, rfl⟩ :=
    lawful.exists_member_of_connected (List.mem_of_getElem? located) connected
  exact lawful.within member memberIn

end Relations

namespace Forest

section Slice

variable {built : List Relations} {relations : Relations}
variable {places : List Nat}

/-- The nodes of one scope in a forest, as its relations portray them. -/
theorem filter_portraits
    (family : Relations.Family built) (member : relations ∈ built) :
    ((ofScopes built).arena.portraits.filter fun portrait =>
        portrait.feature.scope = relations.scope) =
      ((ofScopes built).arena.features.filter fun id =>
        id.scope = relations.scope).map relations.portrait := by
  rw [Arena.portraits, Arena.features, List.filter_map, List.filter_map,
    List.map_map]
  apply List.map_congr_left
  intro node nodeIn
  rcases List.mem_filter.mp nodeIn with ⟨standing, scope⟩
  exact
    portrait_eq_of_mem family standing member (of_decide_eq_true scope)

/-- The features of one scope in a forest. -/
theorem mem_filter_features
    (family : Relations.Family built) (member : relations ∈ built)
    (id : FeatureId) :
    (id ∈ (ofScopes built).arena.features.filter fun id =>
        id.scope = relations.scope) ↔
      ∃ position ∈ relations.rootPositions,
        relations.Connected (relations.idAt position) id := by
  have lawful := family.lawful relations member
  rw [List.mem_filter, decide_eq_true_iff, mem_features_ofScopes family]
  constructor
  · rintro ⟨⟨other, otherIn, position, listed, connected⟩, scope⟩
    have same : other = relations := by
      refine family.apart other otherIn relations member ?_
      exact
        ((family.lawful other otherIn).scope_of_connected listed
          connected).symm.trans scope
    exact same ▸ ⟨position, listed, connected⟩
  · rintro ⟨position, listed, connected⟩
    exact
      ⟨⟨relations, member, position, listed, connected⟩,
        lawful.scope_of_connected listed connected⟩

/-- The roots of one scope in a forest, as they stand in the catalog. -/
theorem filter_rootIds
    {catalog : List Feature}
    (each :
      ∀ relations ∈ built,
        ∃ policy scope ledger,
          Relations.build policy catalog scope ledger = .ok relations)
    (apart : (built.map (·.scope)).Nodup) (member : relations ∈ built) :
    ((ofScopes built).rootIds.filter fun id => id.scope = relations.scope) =
      (Distinct.ofList (catalogIds (featuresOf relations.scope catalog))).filter
        fun id => relations.IsRoot id := by
  have family := Relations.family_of_built each apart
  have listed :
      catalogIds (featuresOf relations.scope catalog) =
        (catalogIds catalog).filter fun id => id.scope = relations.scope := by
    rw [catalogIds, catalogIds, featuresOf, List.filter_map]
    congr 1
    apply List.filter_congr
    intro feature _
    exact
      Bool.eq_iff_iff.mpr
        ((feature.id.inScope_iff _).trans decide_eq_true_iff.symm)
  rw [rootIds_ofScopes family, map_id_rootsOf each apart, listed,
    ← Distinct.filter_ofList, List.filter_filter, List.filter_filter]
  apply List.filter_congr
  intro id _
  rw [Bool.eq_iff_iff, Bool.and_eq_true, Bool.and_eq_true,
    decide_eq_true_iff, decide_eq_true_iff, decide_eq_true_iff, and_comm]
  refine and_congr_left fun scope => ?_
  constructor
  · rintro ⟨other, otherIn, root⟩
    have same : other = relations := by
      refine family.apart other otherIn relations member ?_
      exact
        ((family.lawful other otherIn).scope_of_isRoot root).symm.trans scope
    exact same ▸ root
  · intro root
    exact ⟨relations, member, root⟩

/-- A forest of one scope holds features of this scope only. -/
theorem scope_of_mem_features_single
    (lawful : relations.Lawful) {id : FeatureId}
    (present : id ∈ (ofScopes [relations]).arena.features) :
    id.scope = relations.scope := by
  obtain ⟨other, otherIn, position, listed, connected⟩ :=
    (mem_features_ofScopes (Relations.family_singleton lawful) id).mp present
  rw [List.mem_singleton.mp otherIn] at listed connected
  exact lawful.scope_of_connected listed connected

/-- A forest of one scope has its portraits from this scope. -/
theorem portraits_single (lawful : relations.Lawful) :
    (ofScopes [relations]).arena.portraits =
      (ofScopes [relations]).arena.features.map relations.portrait := by
  rw [Arena.portraits, Arena.features, List.map_map]
  apply List.map_congr_left
  intro node standing
  refine
    portrait_eq_of_mem (Relations.family_singleton lawful) standing
      (List.mem_singleton_self relations) ?_
  exact scope_of_mem_features_single lawful (List.mem_map_of_mem standing)

/--
Each scope of a forest looks as it does in a forest that is grown from its own
features alone.
-/
theorem showsOf_ofScopes
    {policy : ConflictPolicy} {catalog : List Feature} {ledger : Ledger}
    (each :
      ∀ relations ∈ built,
        ∃ policy scope ledger,
          Relations.build policy catalog scope ledger = .ok relations)
    (apart : (built.map (·.scope)).Nodup)
    (alone :
      Relations.build policy (featuresOf relations.scope catalog)
          relations.scope ledger =
        .ok relations)
    (member : relations.withPlaces places ∈ built) :
    (ofScopes built).ShowsOf relations.scope (ofScopes [relations]) := by
  have family := Relations.family_of_built each apart
  have lawful := Relations.lawful_of_build alone
  have single := Relations.family_singleton lawful
  constructor
  · have wide := filter_rootIds each apart member
    have eachAlone :
        ∀ other ∈ [relations],
          ∃ policy scope ledger,
            Relations.build policy (featuresOf relations.scope catalog) scope
                ledger =
              .ok other := by
      intro other otherIn
      rw [List.mem_singleton.mp otherIn]
      exact ⟨policy, relations.scope, ledger, alone⟩
    have narrow :=
      map_id_rootsOf eachAlone (List.nodup_singleton relations.scope)
    rw [rootIds_ofScopes single, narrow]
    refine wide.trans ?_
    apply List.filter_congr
    intro id _
    apply decide_eq_decide.mpr
    constructor
    · intro root
      exact ⟨relations, List.mem_singleton_self relations, root⟩
    · rintro ⟨other, otherIn, root⟩
      exact List.mem_singleton.mp otherIn ▸ root
  · rw [portraits_single lawful]
    refine (List.Perm.of_eq (filter_portraits family member)).trans ?_
    apply List.Perm.map
    apply (List.perm_ext_iff_of_nodup ?_ ?_).mpr
    · intro id
      rw [mem_features_ofScopes single]
      refine (mem_filter_features family member id).trans ?_
      constructor
      · intro found
        exact ⟨relations, List.mem_singleton_self relations, found⟩
      · rintro ⟨other, otherIn, found⟩
        exact List.mem_singleton.mp otherIn ▸ found
    · exact (grown_ofScopes family).finished.indexed.nodup.filter _
    · exact (grown_ofScopes single).finished.indexed.nodup

end Slice

end Forest

end FeatureAtlas
