import FeatureAtlas.Proofs.Graph.Classes
import FeatureAtlas.Proofs.Graph.FeatureGraph
import Mathlib.Data.Fintype.EquivFin
import Mathlib.Order.WellFounded

/-!
# Roots and cycles

Walking from a member to the members that depend on it ends at a root unless
the walk comes back to where it has been, and then it has met a cycle.  So
roots and cycles together leave no member out of sight, and members without a
root always have a cycle among them.
-/

namespace FeatureAtlas.Relations

/-! ## Members of cycles -/

namespace Lawful

variable {relations : Relations}

/-- A member that depends on another one and the other way round is in a cycle. -/
theorem exists_cycle_of_mutual
    (lawful : relations.Lawful) {position other : Nat}
    (together : relations.Mutual position other)
    (differ : position ≠ other) :
    ∃ cycle ∈ relations.cycles, relations.idAt position ∈ cycle.members := by
  rcases (lawful.exists_group_iff differ).mpr together with
    ⟨group, grouped, here, -⟩
  exact
    ⟨⟨group.map relations.idAt⟩,
      (mem_cycles_iff_groups relations _).mpr ⟨group, grouped, rfl⟩,
      List.mem_map_of_mem here⟩

/-- A member that leads to itself is in a cycle, for none depends directly on itself. -/
theorem exists_cycle_of_leads_self
    (lawful : relations.Lawful) {position : Nat}
    (leads : relations.Leads position position) :
    ∃ cycle ∈ relations.cycles, relations.idAt position ∈ cycle.members := by
  obtain ⟨next, stepped, path⟩ := Relation.TransGen.head'_iff.mp leads
  have differ : position ≠ next := by
    rintro rfl
    exact lawful.irreflexive position stepped
  rcases Relation.reflTransGen_iff_eq_or_transGen.mp path with same | back
  · exact absurd same differ
  · exact lawful.exists_cycle_of_mutual ⟨.single stepped, back⟩ differ

end Lawful

/-! ## Walking back to a root or to a cycle -/

/-- Of two members that both lead to a third one, the left leads to the right. -/
def Above (relations : Relations) (goal : Nat)
    (left right : Fin relations.size) : Prop :=
  Relation.ReflTransGen relations.Step left goal ∧
    relations.Leads left right

/-- Without a cycle above a member, walking back from it ends. -/
theorem wellFounded_above
    {relations : Relations} {goal : Nat}
    (acyclic :
      ∀ source, Relation.ReflTransGen relations.Step source goal →
        ¬relations.Leads source source) :
    WellFounded (relations.Above goal) := by
  have : IsTrans (Fin relations.size) (relations.Above goal) := by
    refine ⟨?_⟩
    intro first second third upper lower
    exact ⟨upper.1, upper.2.trans lower.2⟩
  have : Std.Irrefl (relations.Above goal) := by
    refine ⟨?_⟩
    intro source circle
    exact acyclic source circle.1 circle.2
  exact Finite.wellFounded_of_trans_of_irrefl _

/-- A root or a member that leads to itself leads to every member. -/
theorem Lawful.exists_source
    {relations : Relations} (lawful : relations.Lawful) {goal : Nat}
    (inside : goal < relations.size) :
    ∃ source < relations.size,
      Relation.ReflTransGen relations.Step source goal ∧
        (relations.dependentsAt source = [] ∨
          relations.Leads source source) := by
  by_cases circle :
      ∃ source,
        Relation.ReflTransGen relations.Step source goal ∧
          relations.Leads source source
  · rcases circle with ⟨source, path, leads⟩
    exact ⟨source, (lawful.leads_lt leads).1, path, Or.inr leads⟩
  · have acyclic :
        ∀ source, Relation.ReflTransGen relations.Step source goal →
          ¬relations.Leads source source :=
      fun source path leads => circle ⟨source, path, leads⟩
    -- Among the members above the goal take one that nothing is above.
    obtain ⟨top, path, least⟩ :=
      (wellFounded_above acyclic).has_min
        {source | Relation.ReflTransGen relations.Step source goal}
        ⟨⟨goal, inside⟩, .refl⟩
    refine ⟨top, top.isLt, path, Or.inl ?_⟩
    rw [List.eq_nil_iff_forall_not_mem]
    intro source listed
    have stepped : relations.Step source top :=
      lawful.mem_dependentsAt.mp listed
    have higher : Relation.ReflTransGen relations.Step source goal :=
      .head stepped path
    exact
      least ⟨source, lawful.dependent_lt listed⟩ higher
        ⟨higher, .single stepped⟩

/-! ## No member is out of sight -/

/--
Every member is reached along dependencies from a root or from a member of a
reported cycle; so members without a root have a cycle.
-/
theorem roots_and_cycles_reach_all
    {policy : ConflictPolicy} {catalog : List Feature} {scope : Scope}
    {ledger : Ledger} {relations : Relations}
    (built : build policy catalog scope ledger = .ok relations) :
    (∀ feature ∈ relations.members,
      ∃ source ∈ relations.members,
        Relation.ReflTransGen relations.DependsOn source.id feature.id ∧
          (source ∈ relations.roots ∨
            ∃ cycle ∈ relations.cycles, source.id ∈ cycle.members)) ∧
      (relations.members ≠ [] → relations.roots = [] →
        relations.cycles ≠ []) := by
  have lawful := lawful_of_build built
  have reached :
      ∀ feature ∈ relations.members,
        ∃ source ∈ relations.members,
          Relation.ReflTransGen relations.DependsOn source.id feature.id ∧
            (source ∈ relations.roots ∨
              ∃ cycle ∈ relations.cycles, source.id ∈ cycle.members) := by
    intro feature member
    obtain ⟨goal, -, inside, here⟩ := lawful.exists_position member
    obtain ⟨position, sourceInside, path, outcome⟩ :=
      lawful.exists_source inside
    obtain ⟨source, located⟩ := exists_member? sourceInside
    have there := idAt_of_member? located
    refine ⟨source, List.mem_of_getElem? located, ?_, ?_⟩
    · rw [← here, ← there]
      exact path.lift relations.idAt fun _ _ => lawful.dependsOn_of_step
    · rcases outcome with none | circle
      · exact Or.inl (mem_roots_of_dependentsAt_eq_nil located none)
      · rw [← there]
        exact Or.inr (lawful.exists_cycle_of_leads_self circle)
  refine ⟨reached, ?_⟩
  intro inhabited rootless acyclic
  obtain ⟨feature, member⟩ := List.exists_mem_of_ne_nil _ inhabited
  obtain ⟨source, -, -, root | ⟨cycle, cycleIn, -⟩⟩ := reached feature member
  · rw [rootless] at root
    cases root
  · rw [acyclic] at cycleIn
    cases cycleIn

/-- Two features that call each other and nothing else: no root, one cycle. -/
theorem roots_and_cycles_reach_all_of_loop :
    ∃ relations,
      build .firstWins (loopCatalog.take 3) ⟨"Shop", "1"⟩ loopLedger =
          .ok relations ∧
        relations.members ≠ [] ∧ relations.roots = [] ∧
          relations.cycles ≠ [] := by
  have built :
      ∃ relations,
        build .firstWins (loopCatalog.take 3) ⟨"Shop", "1"⟩ loopLedger =
            .ok relations ∧
          relations.members.length = 2 ∧ relations.roots = [] :=
    ⟨_, rfl, rfl, rfl⟩
  rcases built with ⟨relations, built, two, rootless⟩
  have inhabited : relations.members ≠ [] := by
    intro empty
    rw [empty] at two
    cases two
  exact
    ⟨relations, built, inhabited, rootless,
      (roots_and_cycles_reach_all built).2 inhabited rootless⟩

end FeatureAtlas.Relations
