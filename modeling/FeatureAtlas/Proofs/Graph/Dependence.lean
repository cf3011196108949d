import FeatureAtlas.Proofs.Graph.Resolution

/-!
# Dependence told by calls

A member depends on another one exactly if one of the signatures that it
declares calls, by the ledger, a signature that the other one owns.  So the
order of callees and of declarations decides how dependencies are listed, but
not which there are.
-/

namespace FeatureAtlas

/-- The owner of a signature is the first declarer, named by its identity. -/
theorem Ownership.owner?_eq
    {policy : ConflictPolicy} {features : List Feature}
    {ownership : Ownership}
    (built : build policy features = .ok ownership)
    (signature : String) :
    ownership.owner? signature =
      (firstDeclarer? features signature).map (·.id) := by
  conv_rhs => rw [← List.zipIdx_map_fst 0 features]
  rw [owner?, owners_build built, declarations, find?_declarations,
    Option.map_map, firstDeclarer?, List.find?_map, Option.map_map]
  rfl

namespace Relations

theorem mem_ownersInvoked
    {features : List Feature} {ledger : Ledger} {feature target : Feature} :
    target ∈ ownersInvoked features ledger feature ↔
      target ≠ feature ∧
        ∃ caller ∈ feature.signatures,
          ∃ callee ∈ ledger.callees caller,
            Ownership.firstDeclarer? features callee = some target := by
  simp only [ownersInvoked, Distinct.mem_ofList, List.mem_filter,
    List.mem_filterMap, List.mem_flatMap, decide_eq_true_eq]
  constructor
  · rintro ⟨⟨callee, ⟨caller, declared, called⟩, owned⟩, other⟩
    exact ⟨other, caller, declared, callee, called, owned⟩
  · rintro ⟨other, caller, declared, callee, called, owned⟩
    exact ⟨⟨callee, ⟨caller, declared, called⟩, owned⟩, other⟩

section Built

variable {policy : ConflictPolicy} {catalog : List Feature} {scope : Scope}
variable {ledger : Ledger} {relations : Relations}

/-- A member owns what it is the first to declare. -/
theorem owner?_eq_some_iff
    (built : build policy catalog scope ledger = .ok relations)
    {target : Feature} (member : target ∈ relations.members)
    (signature : String) :
    relations.ownership.owner? signature = some target.id ↔
      Ownership.firstDeclarer? relations.members signature =
        some target := by
  rw [Ownership.owner?_eq (builtFrom_of_build built).owned]
  constructor
  · intro owned
    rcases Option.map_eq_some_iff.mp owned with ⟨first, declared, same⟩
    have listed : first ∈ relations.members :=
      List.mem_of_find?_eq_some declared
    have distinct := (resolves_of_build built).distinct
    rw [declared, List.inj_on_of_nodup_map distinct listed member same]
  · intro declared
    rw [declared, Option.map_some]

/--
A member depends on another one if it declares a signature that calls one of
those that the other owns.
-/
theorem dependsOn_iff_owner
    (built : build policy catalog scope ledger = .ok relations)
    {feature target : Feature} (member : feature ∈ relations.members)
    (targetMember : target ∈ relations.members) :
    relations.DependsOn feature.id target.id ↔
      target.id ≠ feature.id ∧
        ∃ caller ∈ feature.signatures,
          ∃ callee ∈ ledger.callees caller,
            relations.ownership.owner? callee = some target.id := by
  have resolves := resolves_of_build built
  have answered := resolves.dependencies feature member
  have apart : target ≠ feature ↔ target.id ≠ feature.id := by
    rw [not_iff_not]
    constructor
    · exact congrArg Feature.id
    · exact List.inj_on_of_nodup_map resolves.distinct targetMember member
  have listed :
      relations.DependsOn feature.id target.id ↔
        target ∈ ownersInvoked relations.members ledger feature := by
    constructor
    · rintro ⟨features, again, ids⟩
      rw [answered, Except.ok.injEq] at again
      subst again
      rcases List.mem_map.mp ids with ⟨other, otherIn, same⟩
      rcases mem_ownersInvoked.mp otherIn with
        ⟨-, caller, -, callee, -, owned⟩
      have otherMember : other ∈ relations.members :=
        List.mem_of_find?_eq_some owned
      exact
        List.inj_on_of_nodup_map resolves.distinct otherMember targetMember
            same ▸
          otherIn
    · intro owner
      exact ⟨_, answered, List.mem_map_of_mem owner⟩
  rw [listed, mem_ownersInvoked, apart]
  simp only [owner?_eq_some_iff built targetMember]

end Built

end Relations

end FeatureAtlas
