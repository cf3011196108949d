import FeatureAtlas.Proofs.Graph.CycleReport
import FeatureAtlas.Proofs.Graph.Forest

/-!
# More calls make larger relations

Calls that are added to a ledger leave the members and the owners of a scope
alone, so a member keeps its dependencies and may gain some.  Whatever is told
by chains of dependencies then grows: connected features stay connected, and
features that depend on each other go on doing so.  A root may find a
dependent, but nothing becomes a root.
-/

namespace FeatureAtlas.Relations

variable {earlier later : Relations}

/-- Relations have the members of others, with the same dependencies and perhaps more. -/
structure Within (earlier later : Relations) : Prop where
  members : later.members = earlier.members
  dependencies :
    ∀ source, earlier.dependenciesAt source ⊆ later.dependenciesAt source

/-! ## Ledgers with more calls -/

theorem resolve_subset
    {ledger wider : Ledger}
    (more : ∀ caller, ledger.callees caller ⊆ wider.callees caller)
    (ownership : Ownership) (entry : Feature × Nat) :
    resolve ownership ledger entry ⊆ resolve ownership wider entry := by
  intro target
  simp only [resolve, Distinct.mem_ofList, List.mem_filter,
    List.mem_filterMap, List.mem_flatMap]
  rintro ⟨⟨callee, ⟨caller, declared, called⟩, owned⟩, other⟩
  exact ⟨⟨callee, ⟨caller, declared, more caller called⟩, owned⟩, other⟩

/-- Relations under a ledger are within those under one with more calls. -/
theorem within_of_build
    {policy : ConflictPolicy} {catalog : List Feature} {scope : Scope}
    {ledger wider : Ledger}
    (more : ∀ caller, ledger.callees caller ⊆ wider.callees caller)
    (built : build policy catalog scope ledger = .ok earlier)
    (builtLater : build policy catalog scope wider = .ok later) :
    Within earlier later := by
  have parts := builtFrom_of_build built
  have partsLater := builtFrom_of_build builtLater
  have members : later.members = earlier.members := by
    rw [Relations.members, partsLater.membership_eq, ← parts.membership_eq,
      Relations.members]
  have owners : later.ownership = earlier.ownership := by
    have owned := partsLater.owned
    rw [members, parts.owned] at owned
    exact (Except.ok.inj owned).symm
  refine ⟨members, ?_⟩
  intro source
  rw [parts.dependenciesAt_eq, partsLater.dependenciesAt_eq, member?,
    member?, members, owners]
  cases earlier.members[source]? with
  | none => exact List.Subset.refl _
  | some feature =>
      exact resolve_subset more earlier.ownership (feature, source)

/-! ## Chains of dependencies -/

namespace Within

theorem member?_eq (within : Within earlier later) :
    later.member? = earlier.member? := by
  funext position
  rw [member?, member?, within.members]

theorem idAt_eq (within : Within earlier later) :
    later.idAt = earlier.idAt := by
  funext position
  rw [idAt, idAt, within.member?_eq]

section Lawful

variable (within : Within earlier later)
variable (lawful : earlier.Lawful) (lawfulLater : later.Lawful)

include within lawful lawfulLater

theorem dependsOn
    {source target : FeatureId} (depends : earlier.DependsOn source target) :
    later.DependsOn source target := by
  rw [lawful.dependsOn_iff] at depends
  rw [lawfulLater.dependsOn_iff, within.idAt_eq]
  obtain ⟨left, right, here, there, listed⟩ := depends
  exact ⟨left, right, here, there, within.dependencies left listed⟩

theorem connected
    {left right : FeatureId} (connected : earlier.Connected left right) :
    later.Connected left right := by
  refine Relation.ReflTransGen.mono ?_ _ _ connected
  intro source target adjacent
  exact
    adjacent.imp (within.dependsOn lawful lawfulLater)
      (within.dependsOn lawful lawfulLater)

theorem interdependent
    {left right : FeatureId} (both : earlier.Interdependent left right) :
    later.Interdependent left right := by
  have chains :
      Relation.TransGen earlier.DependsOn ≤
        Relation.TransGen later.DependsOn :=
    Relation.TransGen.mono fun _ _ => within.dependsOn lawful lawfulLater
  exact both.imp (chains left right) (chains right left)

/-! ## What is reported -/

theorem rootPositions_sublist :
    later.rootPositions.Sublist earlier.rootPositions := by
  rw [rootPositions, rootPositions, size, size, within.members]
  apply List.monotone_filter_right
  intro position rootless
  rw [List.isEmpty_iff, List.eq_nil_iff_forall_not_mem] at rootless ⊢
  intro source dependent
  have stepped := lawful.mem_dependentsAt.mp dependent
  exact
    rootless source
      (lawfulLater.mem_dependentsAt.mpr (within.dependencies source stepped))

theorem roots_sublist : later.roots.Sublist earlier.roots := by
  rw [roots, roots, within.member?_eq]
  exact
    (within.rootPositions_sublist lawful lawfulLater).filterMap
      earlier.member?

theorem isRoot_of_later
    {id : FeatureId} (root : later.IsRoot id) : earlier.IsRoot id := by
  rw [lawfulLater.isRoot_iff, within.idAt_eq] at root
  rw [lawful.isRoot_iff]
  obtain ⟨position, listed, here⟩ := root
  have among := within.rootPositions_sublist lawful lawfulLater
  exact ⟨position, among.subset listed, here⟩

/-- A cycle is kept in one that may have more members. -/
theorem exists_cycle
    {cycle : Cycle} (reported : cycle ∈ earlier.cycles) :
    ∃ wide ∈ later.cycles, cycle.members ⊆ wide.members := by
  -- Two members that depend on each other tell which of the later cycles it is.
  obtain ⟨left, leftIn, right, rightIn, apart⟩ :=
    lawful.exists_pair_of_mem_cycles reported
  have both :=
    (lawful.exists_cycle_iff apart).mp ⟨cycle, reported, leftIn, rightIn⟩
  obtain ⟨wide, wideIn, inside, -⟩ :=
    (lawfulLater.exists_cycle_iff apart).mpr
      (within.interdependent lawful lawfulLater both)
  refine ⟨wide, wideIn, ?_⟩
  intro other otherIn
  rw [lawfulLater.mem_cycle_iff wideIn inside]
  exact
    ((lawful.mem_cycle_iff reported leftIn other).mp otherIn).imp_right
      (within.interdependent lawful lawfulLater)

/-- The graph of a member keeps its nodes. -/
theorem exists_graphs
    {feature : Feature} (member : feature ∈ earlier.members) :
    ∃ graph wide,
      earlier.graph feature.id = .ok graph ∧
        later.graph feature.id = .ok wide ∧
          graph.arena.features ⊆ wide.arena.features := by
  have memberLater : feature ∈ later.members := within.members ▸ member
  obtain ⟨graph, answered, shows⟩ := lawful.exists_graph member
  obtain ⟨wide, answeredLater, showsLater⟩ :=
    lawfulLater.exists_graph memberLater
  refine ⟨graph, wide, answered, answeredLater, ?_⟩
  intro other shown
  rw [showsLater]
  exact within.connected lawful lawfulLater ((shows other).mp shown)

end Lawful

end Within

/-- Roots get fewer, and what else is reported gets larger. -/
structure Enlarged (earlier later : Relations) : Prop where
  roots : later.roots.Sublist earlier.roots
  cycles :
    ∀ cycle ∈ earlier.cycles,
      ∃ wide ∈ later.cycles, cycle.members ⊆ wide.members
  graphs :
    ∀ feature ∈ earlier.members,
      ∃ graph wide,
        earlier.graph feature.id = .ok graph ∧
          later.graph feature.id = .ok wide ∧
            graph.arena.features ⊆ wide.arena.features

theorem Within.enlarged
    (within : Within earlier later) (lawful : earlier.Lawful)
    (lawfulLater : later.Lawful) :
    Enlarged earlier later where
  roots := within.roots_sublist lawful lawfulLater
  cycles _ := within.exists_cycle lawful lawfulLater
  graphs _ := within.exists_graphs lawful lawfulLater

end FeatureAtlas.Relations
