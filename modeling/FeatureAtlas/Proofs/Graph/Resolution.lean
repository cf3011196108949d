import FeatureAtlas.Proofs.Graph.Adjacency

/-!
# Relations told without positions

A member depends on the first declarers of the signatures that its own
signatures invoke, in declaration order and then in recorded order, each of
them at its first mention and never on itself.  Its dependents are the members
that depend on it, in catalog order.  This module removes the positions from
what the relations were built as: different members stand at different
positions, so naming a member by its position changes neither what is first
nor what is repeated.
-/

namespace FeatureAtlas.Relations

/--
The owners of what a feature's own signatures invoke, each at its first
mention, without the feature itself.
-/
def ownersInvoked
    (features : List Feature) (ledger : Ledger) (feature : Feature) :
    List Feature :=
  let targets := feature.signatures.flatMap ledger.callees
  Distinct.ofList
    ((targets.filterMap (Ownership.firstDeclarer? features)).filter
      (· ≠ feature))

/-! ## Members at positions -/

/-- The member at a position within the members. -/
def featureAt (relations : Relations) (position : Nat) : Feature :=
  (relations.member? position).getD default

section Positions

variable {relations : Relations}

theorem featureAt_of_member?
    {position : Nat} {feature : Feature}
    (located : relations.member? position = some feature) :
    relations.featureAt position = feature := by
  rw [featureAt, located]
  rfl

theorem member?_eq_some_featureAt
    {position : Nat} (inside : position < relations.size) :
    relations.member? position = some (relations.featureAt position) := by
  rcases exists_member? inside with ⟨feature, located⟩
  rw [located, featureAt_of_member? located]

theorem filterMap_member?
    {positions : List Nat}
    (inside : ∀ position ∈ positions, position < relations.size) :
    positions.filterMap relations.member? =
      positions.map relations.featureAt := by
  rw [← List.filterMap_eq_map]
  apply List.filterMap_congr
  intro position member
  exact member?_eq_some_featureAt (inside position member)

theorem map_featureAt_range (relations : Relations) :
    (List.range relations.size).map relations.featureAt =
      relations.members := by
  apply List.ext_getElem?
  intro position
  by_cases inside : position < relations.size
  · rw [List.getElem?_map, List.getElem?_range inside, Option.map_some]
    exact (member?_eq_some_featureAt inside).symm
  · have outside := Nat.not_lt.mp inside
    rw [List.getElem?_eq_none (by simpa using outside)]
    exact (List.getElem?_eq_none outside).symm

theorem Lawful.featureAt_injective
    (lawful : relations.Lawful) {left right : Nat}
    (leftInside : left < relations.size)
    (rightInside : right < relations.size)
    (same : relations.featureAt left = relations.featureAt right) :
    left = right := by
  apply lawful.idAt_injective leftInside rightInside
  rw [idAt_of_member? (member?_eq_some_featureAt leftInside),
    idAt_of_member? (member?_eq_some_featureAt rightInside), same]

end Positions

/-! ## Dependencies -/

section Built

variable {policy : ConflictPolicy} {catalog : List Feature} {scope : Scope}
variable {ledger : Ledger} {relations : Relations}

/-- The owner of a signature is the first member that declares it. -/
theorem BuiltFrom.map_position?
    (parts : BuiltFrom policy catalog scope ledger relations)
    (signature : String) :
    (relations.ownership.position? signature).map relations.featureAt =
      Ownership.firstDeclarer? relations.members signature := by
  rw [← Ownership.feature?_position? parts.owned signature]
  cases owned : relations.ownership.position? signature with
  | none => rfl
  | some position =>
      have inside : position < relations.size :=
        Ownership.position?_lt parts.owned owned
      exact (member?_eq_some_featureAt inside).symm

/-- The members that a member depends on are the owners of what it invokes. -/
theorem map_dependenciesAt
    (built : build policy catalog scope ledger = .ok relations)
    {position : Nat} {feature : Feature}
    (located : relations.member? position = some feature) :
    (relations.dependenciesAt position).map relations.featureAt =
      ownersInvoked relations.members ledger feature := by
  have parts := builtFrom_of_build built
  have lawful := lawful_of_build built
  have here : relations.featureAt position = feature :=
    featureAt_of_member? located
  have standing : position < relations.size :=
    (List.getElem?_eq_some_iff.mp located).1
  have inside :
      ∀ target ∈
          (feature.signatures.flatMap ledger.callees).filterMap
            relations.ownership.position?,
        target < relations.size := by
    intro target member
    rcases List.mem_filterMap.mp member with ⟨signature, -, owned⟩
    exact Ownership.position?_lt parts.owned owned
  have kept :
      (((feature.signatures.flatMap ledger.callees).filterMap
          relations.ownership.position?).filter (· ≠ position)).map
          relations.featureAt =
        ((feature.signatures.flatMap ledger.callees).filterMap
          (Ownership.firstDeclarer? relations.members)).filter
          (· ≠ feature) := by
    have owners :
        (feature.signatures.flatMap ledger.callees).filterMap
            (Ownership.firstDeclarer? relations.members) =
          ((feature.signatures.flatMap ledger.callees).filterMap
            relations.ownership.position?).map relations.featureAt := by
      rw [List.map_filterMap]
      exact List.filterMap_congr fun signature _ =>
        (parts.map_position? signature).symm
    rw [owners, List.filter_map]
    congr 1
    apply List.filter_congr
    intro target member
    rw [Function.comp_apply, decide_eq_decide, not_iff_not, ← here]
    constructor
    · exact congrArg relations.featureAt
    · exact lawful.featureAt_injective (inside target member) standing
  rw [parts.dependenciesAt_eq, located, Option.map_some, Option.getD_some,
    resolve, ownersInvoked, Distinct.map_ofList]
  · exact congrArg Distinct.ofList kept
  · intro left leftIn right rightIn
    exact
      lawful.featureAt_injective (inside left (List.mem_of_mem_filter leftIn))
        (inside right (List.mem_of_mem_filter rightIn))

/-- The members that depend on a member are those among whose owners it is. -/
theorem map_dependentsAt
    (built : build policy catalog scope ledger = .ok relations)
    {target : Nat} {feature : Feature}
    (located : relations.member? target = some feature) :
    (relations.dependentsAt target).map relations.featureAt =
      relations.members.filter fun other =>
        feature ∈ ownersInvoked relations.members ledger other := by
  have lawful := lawful_of_build built
  have here : relations.featureAt target = feature :=
    featureAt_of_member? located
  have standing : target < relations.size :=
    (List.getElem?_eq_some_iff.mp located).1
  have whole :
      (relations.members.filter fun other =>
          feature ∈ ownersInvoked relations.members ledger other) =
        ((List.range relations.size).filter fun source =>
          feature ∈
            ownersInvoked relations.members ledger
              (relations.featureAt source)).map relations.featureAt := by
    conv_lhs => rw [← map_featureAt_range relations]
    rw [List.filter_map, map_featureAt_range]
    rfl
  rw [lawful.dependents_eq, whole]
  congr 1
  apply List.filter_congr
  intro source member
  have inside := List.mem_range.mp member
  rw [decide_eq_decide, ← here,
    ← map_dependenciesAt built (member?_eq_some_featureAt inside)]
  constructor
  · exact List.mem_map_of_mem
  · intro listed
    rcases List.mem_map.mp listed with ⟨other, otherIn, same⟩
    have otherInside := lawful.target_lt source other otherIn
    exact lawful.featureAt_injective otherInside standing same ▸ otherIn

end Built

/-! ## The queries -/

/-- What the relations of a scope tell, said by features alone. -/
structure Resolves
    (relations : Relations) (catalog : List Feature) (scope : Scope)
    (ledger : Ledger) : Prop where
  members : relations.members = firstCopies scope catalog
  distinct : (relations.members.map (·.id)).Nodup
  dependencies :
    ∀ feature ∈ relations.members,
      relations.directDependencies feature.id =
        .ok (ownersInvoked relations.members ledger feature)
  dependents :
    ∀ feature ∈ relations.members,
      relations.directDependents feature.id =
        .ok
          (relations.members.filter fun other =>
            feature ∈ ownersInvoked relations.members ledger other)
  unowning :
    ∀ feature ∈ relations.members,
      (∀ signature,
          Ownership.firstDeclarer? relations.members signature ≠
            some feature) →
        relations.directDependents feature.id = .ok [] ∧
          feature ∈ relations.roots

/-- Who depends on a feature calls a signature that it owns. -/
theorem exists_owned_of_mem_ownersInvoked
    {features : List Feature} {ledger : Ledger} {feature other : Feature}
    (member : feature ∈ ownersInvoked features ledger other) :
    ∃ signature,
      Ownership.firstDeclarer? features signature = some feature := by
  rw [ownersInvoked, Distinct.mem_ofList] at member
  rcases List.mem_filterMap.mp (List.mem_of_mem_filter member) with
    ⟨signature, -, owned⟩
  exact ⟨signature, owned⟩

/-- Whatever the policy, relations that were built tell this. -/
theorem resolves_of_build
    {policy : ConflictPolicy} {catalog : List Feature} {scope : Scope}
    {ledger : Ledger} {relations : Relations}
    (built : build policy catalog scope ledger = .ok relations) :
    relations.Resolves catalog scope ledger := by
  have parts := builtFrom_of_build built
  have lawful := lawful_of_build built
  have dependents :
      ∀ feature ∈ relations.members,
        relations.directDependents feature.id =
          .ok
            (relations.members.filter fun other =>
              feature ∈ ownersInvoked relations.members ledger other) := by
    intro feature member
    rcases mem_members_iff.mp member with ⟨position, located⟩
    have inside := (List.getElem?_eq_some_iff.mp located).1
    have placed := lawful.position_idAt inside
    rw [idAt_of_member? located] at placed
    rw [directDependents, placed, ← map_dependentsAt built located,
      ← filterMap_member? fun source listed => lawful.dependent_lt listed]
    rfl
  refine
    { members := ?members
      distinct := lawful.distinct
      dependencies := ?dependencies
      dependents := dependents
      unowning := ?unowning }
  case members =>
    rw [← Membership.members_ofCatalog, ← parts.membership_eq]
    rfl
  case dependencies =>
    intro feature member
    rcases mem_members_iff.mp member with ⟨position, located⟩
    have inside := (List.getElem?_eq_some_iff.mp located).1
    have placed := lawful.position_idAt inside
    rw [idAt_of_member? located] at placed
    rw [directDependencies, placed, ← map_dependenciesAt built located,
      ← filterMap_member? (lawful.target_lt position)]
    rfl
  case unowning =>
    intro feature member unowned
    have none :
        (relations.members.filter fun other =>
            feature ∈ ownersInvoked relations.members ledger other) = [] := by
      rw [List.filter_eq_nil_iff]
      intro other _ listed
      rcases exists_owned_of_mem_ownersInvoked (of_decide_eq_true listed) with
        ⟨signature, owned⟩
      exact unowned signature owned
    constructor
    · rw [dependents feature member, none]
    · rcases mem_members_iff.mp member with ⟨position, located⟩
      apply mem_roots_of_dependentsAt_eq_nil located
      rw [← map_dependentsAt built located, List.map_eq_nil_iff] at none
      exact none

/-- Where no identity is listed twice, the members are the features of the scope. -/
theorem mem_members_iff_of_distinct
    {policy : ConflictPolicy} {catalog : List Feature} {scope : Scope}
    {ledger : Ledger} {relations : Relations}
    (built : build policy catalog scope ledger = .ok relations)
    (distinct : (catalog.map (·.id)).Nodup) (feature : Feature) :
    feature ∈ relations.members ↔
      feature ∈ catalog ∧ feature.id.scope = scope := by
  rw [(resolves_of_build built).members,
    firstCopies_eq_filter scope distinct, List.mem_filter,
    decide_eq_true_iff]

/--
Where conflicts are only listed, every catalog has relations, and their
members, dependencies and dependents are told by the catalog and the ledger.
-/
theorem build_firstWins_resolves
    (catalog : List Feature) (scope : Scope) (ledger : Ledger) :
    ∃ relations,
      build .firstWins catalog scope ledger = .ok relations ∧
        relations.Resolves catalog scope ledger := by
  rcases
    Ownership.exists_build_firstWins
      (Membership.ofCatalog scope catalog).members with
    ⟨ownership, owned⟩
  have built :
      ∃ relations,
        build .firstWins catalog scope ledger = .ok relations := by
    rw [build, owned]
    exact ⟨_, rfl⟩
  rcases built with ⟨relations, built⟩
  exact ⟨relations, built, resolves_of_build built⟩

/-! ### Shared and repeated signatures -/

/--
A repeated identity, a signature that two features declare, and one that a
feature declares twice.
-/
def sharedCatalog : List Feature :=
  [⟨⟨"Shop", "", "Cart", "1"⟩, ["add", "sum", "add"]⟩,
    ⟨⟨"Shop", "", "Cart", "2"⟩, ["pay"]⟩,
    ⟨⟨"Shop", "", "Stock", "1"⟩, ["reserve"]⟩,
    ⟨⟨"Shop", "", "Cart", "1"⟩, ["reserve"]⟩,
    ⟨⟨"Shop", "", "Total", "1"⟩, ["sum", "reserve"]⟩,
    ⟨⟨"Shop", "", "Pay", "1"⟩, ["pay"]⟩]

/-- The calls between them, some of them repeated and one to nobody. -/
def sharedLedger : Ledger :=
  .ofList
    [("sum", ["pay", "reserve", "print"]), ("add", ["reserve", "sum", "pay"]),
      ("reserve", ["sum", "sum"])]

/--
A feature that shares its signatures with earlier ones owns none: it depends
on others, and nothing depends on it.
-/
theorem build_firstWins_resolves_of_shared :
    ∃ relations,
      build .firstWins sharedCatalog ⟨"Shop", "1"⟩ sharedLedger =
          .ok relations ∧
        relations.directDependencies ⟨"Shop", "", "Total", "1"⟩ =
          .ok
            [⟨⟨"Shop", "", "Pay", "1"⟩, ["pay"]⟩,
              ⟨⟨"Shop", "", "Stock", "1"⟩, ["reserve"]⟩,
              ⟨⟨"Shop", "", "Cart", "1"⟩, ["add", "sum", "add"]⟩] ∧
          relations.directDependents ⟨"Shop", "", "Total", "1"⟩ = .ok [] ∧
            (⟨⟨"Shop", "", "Total", "1"⟩, ["sum", "reserve"]⟩ : Feature) ∈
              relations.roots := by
  rcases
    build_firstWins_resolves sharedCatalog ⟨"Shop", "1"⟩ sharedLedger with
    ⟨relations, built, resolves⟩
  have listed :
      firstCopies ⟨"Shop", "1"⟩ sharedCatalog =
        [⟨⟨"Shop", "", "Cart", "1"⟩, ["add", "sum", "add"]⟩,
          ⟨⟨"Shop", "", "Stock", "1"⟩, ["reserve"]⟩,
          ⟨⟨"Shop", "", "Total", "1"⟩, ["sum", "reserve"]⟩,
          ⟨⟨"Shop", "", "Pay", "1"⟩, ["pay"]⟩] := by
    decide
  have members := resolves.members
  rw [listed] at members
  have total :
      (⟨⟨"Shop", "", "Total", "1"⟩, ["sum", "reserve"]⟩ : Feature) ∈
        relations.members := by
    rw [members]
    decide
  have dependencies := resolves.dependencies _ total
  rw [members] at dependencies
  refine ⟨relations, built, dependencies.trans (by decide), ?_⟩
  apply resolves.unowning _ total
  intro signature owned
  -- Of the two signatures it declares, earlier features own both.
  have declared := List.find?_some owned
  rw [members] at owned
  simp only [decide_eq_true_eq, List.mem_cons, List.not_mem_nil,
    or_false] at declared
  rcases declared with rfl | rfl
  · exact absurd owned (by decide)
  · exact absurd owned (by decide)

end FeatureAtlas.Relations
