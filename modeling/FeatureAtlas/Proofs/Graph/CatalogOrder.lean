import FeatureAtlas.Graph.Forest
import FeatureAtlas.Proofs.Distinct
import FeatureAtlas.Proofs.Graph.Adjacency
import FeatureAtlas.Proofs.Sorting

/-!
# Catalog order

The place of an identity in a catalog is that of its first copy.  Listing the
identities of a catalog once each, at their first copies, puts them in the
order of their places, and the place that is kept for a member is the one of
its identity.  So anything that is sorted by kept places is in catalog order.
-/

namespace FeatureAtlas

/-- The identities of a catalog, each at its first copy. -/
def catalogIds (catalog : List Feature) : List FeatureId :=
  catalog.map (·.id)

/-- The first of several entries for an identity is where it is found. -/
theorem idxOf_catalogIds
    {catalog : List Feature} {entry : Feature × Nat}
    (member : entry ∈ catalog.zipIdx)
    (first :
      ∀ other ∈ catalog.zipIdx, other.1.id = entry.1.id →
        entry.2 ≤ other.2) :
    (catalogIds catalog).idxOf entry.1.id = entry.2 := by
  have found := List.mem_zipIdx_iff_getElem?.mp member
  obtain ⟨inside, here⟩ := List.getElem?_eq_some_iff.mp found
  rw [List.idxOf, List.findIdx_eq (by simpa [catalogIds] using inside)]
  constructor
  · simp [catalogIds, here]
  · intro earlier before
    have earlierInside := Nat.lt_trans before inside
    have standing :
        (catalog[earlier], earlier) ∈ catalog.zipIdx :=
      List.mem_zipIdx_iff_getElem?.mpr (List.getElem?_eq_getElem earlierInside)
    simp only [catalogIds, List.getElem_map, beq_eq_false_iff_ne]
    intro same
    exact absurd (first _ standing same) (Nat.not_le.mpr before)

namespace Relations

/-- The place that is kept for a member is that of its identity in the catalog. -/
theorem placeAt_eq_idxOf
    {policy : ConflictPolicy} {catalog : List Feature} {scope : Scope}
    {ledger : Ledger} {relations : Relations}
    (built : build policy catalog scope ledger = .ok relations)
    {position : Nat} (inside : position < relations.size) :
    relations.placeAt position =
        (catalogIds catalog).idxOf (relations.idAt position) ∧
      relations.idAt position ∈ catalogIds catalog := by
  have parts := builtFrom_of_build built
  obtain ⟨entries, enlisted⟩ := Membership.exists_enlisted scope catalog
  rw [← parts.membership_eq] at enlisted
  have bound : position < entries.length := by
    simpa [size, members, enlisted.members_eq] using inside
  have member := List.getElem_mem bound
  have entryIn := enlisted.sublist.subset member
  have identity : relations.idAt position = entries[position].1.id := by
    apply idAt_of_member?
    rw [member?, members, enlisted.members_eq, List.getElem?_map,
      List.getElem?_eq_getElem bound]
    rfl
  have place : relations.placeAt position = entries[position].2 := by
    rw [placeAt, enlisted.places_eq, List.getElem?_map,
      List.getElem?_eq_getElem bound]
    rfl
  rw [identity, place]
  constructor
  · exact (idxOf_catalogIds entryIn (enlisted.first _ member)).symm
  · exact List.mem_map_of_mem (List.fst_mem_of_mem_zipIdx entryIn)

/-- The places that are kept for the members grow along them. -/
theorem pairwise_places
    {policy : ConflictPolicy} {catalog : List Feature} {scope : Scope}
    {ledger : Ledger} {relations : Relations}
    (built : build policy catalog scope ledger = .ok relations) :
    relations.membership.places.Pairwise (· < ·) ∧
      relations.membership.places.length = relations.size := by
  have parts := builtFrom_of_build built
  obtain ⟨entries, enlisted⟩ := Membership.exists_enlisted scope catalog
  rw [← parts.membership_eq] at enlisted
  constructor
  · rw [enlisted.places_eq]
    apply List.pairwise_map.mpr
    exact (Membership.pairwise_zipIdx catalog).sublist enlisted.sublist
  · rw [enlisted.places_eq, size, members, enlisted.members_eq,
      List.length_map, List.length_map]

/-- Members come in the order of their first copies in the catalog. -/
theorem idxOf_idAt_lt
    {policy : ConflictPolicy} {catalog : List Feature} {scope : Scope}
    {ledger : Ledger} {relations : Relations}
    (built : build policy catalog scope ledger = .ok relations)
    {left right : Nat} (before : left < right)
    (inside : right < relations.size) :
    (catalogIds catalog).idxOf (relations.idAt left) <
      (catalogIds catalog).idxOf (relations.idAt right) := by
  have leftInside : left < relations.size := Nat.lt_trans before inside
  rw [← (placeAt_eq_idxOf built leftInside).1,
    ← (placeAt_eq_idxOf built inside).1]
  rcases pairwise_places built with ⟨ascending, sized⟩
  have leftPlace : left < relations.membership.places.length := by
    rwa [sized]
  have rightPlace : right < relations.membership.places.length := by
    rwa [sized]
  rw [placeAt, placeAt, List.getElem?_eq_getElem leftPlace,
    List.getElem?_eq_getElem rightPlace]
  exact
    List.pairwise_iff_getElem.mp ascending left right leftPlace rightPlace
      before

end Relations

/-- Identities stand in the order of their first copies in a catalog. -/
def InCatalogOrder (catalog : List Feature) (ids : List FeatureId) : Prop :=
  ids.Pairwise fun left right =>
    (catalogIds catalog).idxOf left < (catalogIds catalog).idxOf right

end FeatureAtlas
