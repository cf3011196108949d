import FeatureAtlas.Proofs.Distinct
import FeatureAtlas.Proofs.Graph.Resolution

/-!
# Registering a new feature

A feature that is new in a catalog is declared behind all others, so it owns
only signatures that nobody owned.  Whatever it declares or invokes, the others
keep their owners, their conflicts, and among themselves their dependencies and
dependents in the same order.
-/

namespace FeatureAtlas

/-- A new feature at the end of a catalog is a first copy if it is in the scope. -/
theorem firstCopies_append
    (scope : Scope) {catalog : List Feature} {feature : Feature}
    (fresh : feature.id ∉ catalog.map (·.id)) :
    firstCopies scope (catalog ++ [feature]) =
      firstCopies scope catalog ++
        [feature].filter fun other => other.id.scope = scope := by
  have before :
      (catalog.zipIdx.filter fun entry =>
          IsFirstCopy scope (catalog ++ [feature]) entry) =
        catalog.zipIdx.filter fun entry => IsFirstCopy scope catalog entry := by
    apply List.filter_congr
    intro entry member
    have located := List.mem_zipIdx_iff_getElem?.mp member
    have inside := (List.getElem?_eq_some_iff.mp located).1
    rw [decide_eq_decide, IsFirstCopy, IsFirstCopy,
      List.take_append_of_le_length (Nat.le_of_lt inside)]
  have first :
      IsFirstCopy scope (catalog ++ [feature]) (feature, catalog.length) ↔
        feature.id.scope = scope := by
    rw [IsFirstCopy, List.take_left]
    apply and_iff_left
    intro earlier member same
    exact fresh (List.mem_map.mpr ⟨earlier, member, same⟩)
  rw [firstCopies, List.zipIdx_append, List.filter_append, List.map_append,
    before, firstCopies, Nat.zero_add, List.zipIdx_singleton,
    List.filter_singleton, List.filter_singleton]
  congr 1
  by_cases inside : feature.id.scope = scope
  · rw [decide_eq_true (first.mpr inside), decide_eq_true inside]
    rfl
  · rw [decide_eq_false (mt first.mp inside), decide_eq_false inside]
    rfl

/-! ## Owners -/

namespace Ownership

theorem declarations_prefix (features added : List Feature) :
    declarations features <+: declarations (features ++ added) := by
  rw [declarations, declarations, List.zipIdx_append, List.flatMap_append]
  exact List.prefix_append _ _

/-- Features behind the others change no owner, and list their conflicts behind the others. -/
theorem build_append
    {features added : List Feature} {ownership grown : Ownership}
    (built : build .firstWins features = .ok ownership)
    (grownBuilt : build .firstWins (features ++ added) = .ok grown) :
    (∀ signature owner,
        ownership.owners.get? signature = some owner →
          grown.owners.get? signature = some owner) ∧
      ownership.conflicts <+: grown.conflicts := by
  rcases declarations_prefix features added with ⟨later, all⟩
  have declared :
      later.foldlM (declare .firstWins) ownership = .ok grown := by
    rw [build, ← all, List.foldlM_append] at grownBuilt
    rw [build] at built
    rw [built] at grownBuilt
    exact grownBuilt
  rcases foldlM_firstWins later ownership with ⟨final, following, longer⟩
  rw [declared, Except.ok.injEq] at following
  exact ⟨fun _ _ => owner_kept declared, following ▸ longer⟩

end Ownership

namespace Relations

/-! ## Dependencies -/

section Added

variable {features added : List Feature} {feature : Feature}

/-- Apart from what the new feature comes to own, signatures have the owners that they had. -/
theorem filter_firstDeclarer?
    (new : ∀ other ∈ added, other = feature) (absent : feature ∉ features)
    (signature : String) :
    (Ownership.firstDeclarer? (features ++ added) signature).filter
        (· ≠ feature) =
      Ownership.firstDeclarer? features signature := by
  rw [Ownership.firstDeclarer?, Ownership.firstDeclarer?, List.find?_append]
  cases found :
      features.find? fun other => signature ∈ other.signatures with
  | some owner =>
      have other : owner ≠ feature := by
        rintro rfl
        exact absent (List.mem_of_find?_eq_some found)
      rw [Option.some_or, Option.filter_some, if_pos (decide_eq_true other)]
  | none =>
      rw [Option.none_or]
      cases latest :
          added.find? fun other => signature ∈ other.signatures with
      | none => rfl
      | some owner =>
          have same := new owner (List.mem_of_find?_eq_some latest)
          rw [Option.filter_some, if_neg (by simpa using same)]

/-- Apart from the new feature, a member depends on what it did, in the same order. -/
theorem filter_ownersInvoked
    (new : ∀ other ∈ added, other = feature) (absent : feature ∉ features)
    (ledger : Ledger) (source : Feature) :
    (ownersInvoked (features ++ added) ledger source).filter (· ≠ feature) =
      ownersInvoked features ledger source := by
  rw [ownersInvoked, ownersInvoked, Distinct.filter_ofList,
    List.filter_comm, List.filter_filterMap]
  simp only [filter_firstDeclarer? new absent]

theorem mem_ownersInvoked_append
    (new : ∀ other ∈ added, other = feature) (absent : feature ∉ features)
    (ledger : Ledger) (source : Feature) {target : Feature}
    (old : target ≠ feature) :
    target ∈ ownersInvoked (features ++ added) ledger source ↔
      target ∈ ownersInvoked features ledger source := by
  rw [← filter_ownersInvoked new absent, List.mem_filter,
    and_iff_left (decide_eq_true old)]

/-- Apart from the new feature, the same members depend on a member, in the same order. -/
theorem filter_dependents
    (new : ∀ other ∈ added, other = feature) (absent : feature ∉ features)
    (ledger : Ledger) {target : Feature} (old : target ≠ feature) :
    ((features ++ added).filter fun other =>
          target ∈ ownersInvoked (features ++ added) ledger other).filter
        (· ≠ feature) =
      features.filter fun other =>
        target ∈ ownersInvoked features ledger other := by
  have none : added.filter (fun other => other ≠ feature) = [] := by
    rw [List.filter_eq_nil_iff]
    intro other member different
    exact of_decide_eq_true different (new other member)
  have all : features.filter (fun other => other ≠ feature) = features := by
    rw [List.filter_eq_self]
    intro other member
    apply decide_eq_true
    rintro rfl
    exact absent member
  rw [List.filter_comm, List.filter_append, none, all, List.append_nil]
  apply List.filter_congr
  intro other _
  rw [decide_eq_decide]
  exact mem_ownersInvoked_append new absent ledger other old

end Added

/-! ## Relations with a new feature -/

/-- What relations keep when a feature is registered. -/
structure Keeps (relations grown : Relations) (feature : Feature) : Prop where
  members : relations.members <+: grown.members
  /-- What is owned keeps its owner, at the same position. -/
  owners :
    ∀ signature owner,
      relations.ownership.owners.get? signature = some owner →
        grown.ownership.owners.get? signature = some owner
  dependencies :
    ∀ member ∈ relations.members,
      ∃ old new,
        relations.directDependencies member.id = .ok old ∧
          grown.directDependencies member.id = .ok new ∧
            new.filter (· ≠ feature) = old
  dependents :
    ∀ member ∈ relations.members,
      ∃ old new,
        relations.directDependents member.id = .ok old ∧
          grown.directDependents member.id = .ok new ∧
            new.filter (· ≠ feature) = old
  conflicts : relations.conflicts <+: grown.conflicts

section Registered

variable {catalog : List Feature} {scope : Scope} {ledger : Ledger}
variable {feature : Feature} {relations grown : Relations}

/-- A new feature in the scope becomes the last member. -/
theorem members_append
    (built : build .firstWins catalog scope ledger = .ok relations)
    (grownBuilt :
      build .firstWins (catalog ++ [feature]) scope ledger = .ok grown)
    (fresh : feature.id ∉ catalog.map (·.id)) :
    grown.members =
      relations.members ++
        [feature].filter fun other => other.id.scope = scope := by
  rw [(resolves_of_build grownBuilt).members,
    (resolves_of_build built).members, firstCopies_append scope fresh]

theorem not_mem_members_of_fresh
    (built : build .firstWins catalog scope ledger = .ok relations)
    (fresh : feature.id ∉ catalog.map (·.id)) :
    feature ∉ relations.members := by
  intro member
  rw [(resolves_of_build built).members, firstCopies, List.mem_map] at member
  rcases member with ⟨entry, kept, rfl⟩
  have listed := List.fst_mem_of_mem_zipIdx (List.mem_of_mem_filter kept)
  exact fresh (List.mem_map_of_mem listed)

end Registered

/--
Registering a feature whose identity is new rewires nothing among the features
that are there.
-/
theorem build_append_keeps
    (catalog : List Feature) (scope : Scope) (ledger : Ledger)
    {feature : Feature} (fresh : feature.id ∉ catalog.map (·.id)) :
    ∃ relations grown,
      build .firstWins catalog scope ledger = .ok relations ∧
        build .firstWins (catalog ++ [feature]) scope ledger = .ok grown ∧
          Keeps relations grown feature := by
  rcases exists_build_firstWins catalog scope ledger with ⟨relations, built⟩
  rcases exists_build_firstWins (catalog ++ [feature]) scope ledger with
    ⟨grown, grownBuilt⟩
  have resolves := resolves_of_build built
  have grownResolves := resolves_of_build grownBuilt
  have members := members_append built grownBuilt fresh
  have absent := not_mem_members_of_fresh built fresh
  have new :
      ∀ other ∈ [feature].filter fun other => other.id.scope = scope,
        other = feature := by
    intro other member
    exact List.mem_singleton.mp (List.mem_of_mem_filter member)
  have owned := (builtFrom_of_build built).owned
  have grownOwned := (builtFrom_of_build grownBuilt).owned
  rw [members] at grownOwned
  rcases Ownership.build_append owned grownOwned with ⟨owners, conflicts⟩
  have staying :
      ∀ member ∈ relations.members, member ∈ grown.members := by
    intro member listed
    rw [members]
    exact List.mem_append_left _ listed
  refine
    ⟨relations, grown, built, grownBuilt,
      { members := members ▸ List.prefix_append _ _
        owners := owners
        dependencies := ?dependencies
        dependents := ?dependents
        conflicts := conflicts }⟩
  case dependencies =>
    intro member listed
    refine
      ⟨_, _, resolves.dependencies member listed,
        grownResolves.dependencies member (staying member listed), ?_⟩
    rw [members]
    exact filter_ownersInvoked new absent ledger member
  case dependents =>
    intro member listed
    have old : member ≠ feature := by
      rintro rfl
      exact absent listed
    refine
      ⟨_, _, resolves.dependents member listed,
        grownResolves.dependents member (staying member listed), ?_⟩
    rw [members]
    exact filter_dependents new absent ledger old

/-! ### A feature that owns an unowned signature -/

/-- A feature that declares a signature called so far in vain, twice, and one that is owned. -/
def printing : Feature :=
  ⟨⟨"Shop", "", "Print", "1"⟩, ["print", "sum", "print"]⟩

/--
It comes to own the signature that nobody owned; the other one stays with the
first feature, which now depends on the new one besides the two others.
-/
theorem build_append_keeps_of_printing :
    printing.id ∉ sharedCatalog.map (·.id) ∧
      ∃ relations grown,
        build .firstWins sharedCatalog ⟨"Shop", "1"⟩ sharedLedger =
            .ok relations ∧
          build .firstWins (sharedCatalog ++ [printing]) ⟨"Shop", "1"⟩
                sharedLedger = .ok grown ∧
            Keeps relations grown printing ∧
              grown.ownership.owner? "print" = some printing.id ∧
                grown.ownership.owner? "sum" =
                    some ⟨"Shop", "", "Cart", "1"⟩ ∧
                  grown.directDependencies ⟨"Shop", "", "Cart", "1"⟩ =
                    .ok
                      [⟨⟨"Shop", "", "Stock", "1"⟩, ["reserve"]⟩,
                        ⟨⟨"Shop", "", "Pay", "1"⟩, ["pay"]⟩, printing] := by
  have fresh : printing.id ∉ sharedCatalog.map (·.id) := by decide
  rcases
    build_append_keeps sharedCatalog ⟨"Shop", "1"⟩ sharedLedger fresh with
    ⟨relations, grown, built, grownBuilt, keeps⟩
  have computed {α : Type} (read : Relations → α) :
      (build .firstWins (sharedCatalog ++ [printing]) ⟨"Shop", "1"⟩
            sharedLedger).map read = .ok (read grown) := by
    rw [grownBuilt]
    rfl
  refine ⟨fresh, relations, grown, built, grownBuilt, keeps, ?_, ?_, ?_⟩
  · apply Except.ok.inj
    exact (computed (·.ownership.owner? "print")).symm.trans (by decide)
  · apply Except.ok.inj
    exact (computed (·.ownership.owner? "sum")).symm.trans (by decide)
  · apply Except.ok.inj
    exact
      (computed (·.directDependencies ⟨"Shop", "", "Cart", "1"⟩)).symm.trans
        (by decide)

end Relations

end FeatureAtlas
