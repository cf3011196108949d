import FeatureAtlas.Graph.Relations
import Mathlib.Data.List.Nodup

/-!
# Members of a scope

The members that a catalog yields for a scope are the first copies of the
identities in it.  This module follows the catalog entry by entry: the
members that have been enlisted stay a sublist of the entries seen so far,
each of them the first entry of its identity, and the look-up table finds
exactly these identities.  In the end the members are the entries of the
scope that no entry of their identity precedes.
-/

namespace FeatureAtlas

namespace Membership

/-- The members and their places after the entries `seen` of a catalog. -/
structure Enlisted
    (scope : Scope) (seen : List (Feature × Nat))
    (membership : Membership) (entries : List (Feature × Nat)) : Prop where
  members_eq : membership.members = entries.map (·.1)
  places_eq : membership.places = entries.map (·.2)
  sublist : entries.Sublist seen
  distinct : (entries.map (·.1.id)).Nodup
  within : ∀ entry ∈ entries, entry.1.id.scope = scope
  first :
    ∀ entry ∈ entries, ∀ other ∈ seen,
      other.1.id = entry.1.id → entry.2 ≤ other.2
  complete :
    ∀ entry ∈ seen, entry.1.id.scope = scope →
      entry.1.id ∈ entries.map (·.1.id)
  located :
    ∀ id position,
      membership.positions.get? id = some position ↔
        (entries.map (·.1.id))[position]? = some id

theorem enlisted_empty (scope : Scope) :
    Enlisted scope [] .empty [] where
  members_eq := rfl
  places_eq := rfl
  sublist := .slnil
  distinct := List.nodup_nil
  within := by simp
  first := by simp
  complete := by simp
  located := by simp [empty]

namespace Enlisted

variable {scope : Scope} {seen : List (Feature × Nat)}
variable {membership : Membership} {entries : List (Feature × Nat)}

/-- The table holds an identity exactly if a member has it. -/
theorem contains_iff
    (enlisted : Enlisted scope seen membership entries)
    (id : FeatureId) :
    membership.positions.contains id = true ↔
      id ∈ entries.map (·.1.id) := by
  rw [Table.contains, Option.isSome_iff_exists, List.mem_iff_getElem?]
  constructor
  · rintro ⟨position, found⟩
    exact ⟨position, (enlisted.located id position).mp found⟩
  · rintro ⟨position, found⟩
    exact ⟨position, (enlisted.located id position).mpr found⟩

/-- An entry of another scope or of a known identity is passed over. -/
theorem skip
    (enlisted : Enlisted scope seen membership entries)
    (entry : Feature × Nat)
    (known :
      entry.1.id.scope = scope → entry.1.id ∈ entries.map (·.1.id))
    (later : ∀ earlier ∈ seen, earlier.2 < entry.2) :
    Enlisted scope (seen ++ [entry]) membership entries where
  members_eq := enlisted.members_eq
  places_eq := enlisted.places_eq
  sublist := enlisted.sublist.trans (List.sublist_append_left seen [entry])
  distinct := enlisted.distinct
  within := enlisted.within
  first := by
    intro member memberIn other otherIn same
    rcases List.mem_append.mp otherIn with old | new
    · exact enlisted.first member memberIn other old same
    · rw [List.mem_singleton.mp new]
      exact Nat.le_of_lt
        (later member (enlisted.sublist.subset memberIn))
  complete := by
    intro other otherIn inside
    rcases List.mem_append.mp otherIn with old | new
    · exact enlisted.complete other old inside
    · rw [List.mem_singleton.mp new] at inside ⊢
      exact known inside
  located := enlisted.located

/-- A new identity of the scope is looked up at the end of the members. -/
theorem located_append
    (enlisted : Enlisted scope seen membership entries)
    (entry : Feature × Nat)
    (fresh : entry.1.id ∉ entries.map (·.1.id))
    (id : FeatureId) (position : Nat) :
    (membership.positions.insert entry.1.id
          membership.members.length).get? id = some position ↔
      ((entries ++ [entry]).map (·.1.id))[position]? = some id := by
  have size : membership.members.length = (entries.map (·.1.id)).length := by
    simp [enlisted.members_eq]
  rw [Table.get?_insert, List.map_append, List.map_singleton, size]
  by_cases same : entry.1.id = id
  · subst same
    rw [if_pos rfl, Option.some.injEq]
    constructor
    · rintro rfl
      simp
    · intro found
      rcases Nat.lt_trichotomy position (entries.map (·.1.id)).length with
        before | here | behind
      · rw [List.getElem?_append_left before] at found
        exact absurd (List.mem_of_getElem? found) fresh
      · exact here.symm
      · rw [List.getElem?_eq_none (by simpa using Nat.succ_le_of_lt behind)] at found
        cases found
  · rw [if_neg same, enlisted.located id position]
    rcases Nat.lt_trichotomy position (entries.map (·.1.id)).length with
      before | here | behind
    · rw [List.getElem?_append_left before]
    · subst here
      simp [same]
    · rw [List.getElem?_eq_none (Nat.le_of_lt behind),
        List.getElem?_eq_none (by simpa using Nat.succ_le_of_lt behind)]

/-- A new identity of the scope becomes a member. -/
theorem enlist
    (enlisted : Enlisted scope seen membership entries)
    (entry : Feature × Nat)
    (inside : entry.1.id.scope = scope)
    (fresh : entry.1.id ∉ entries.map (·.1.id)) :
    Enlisted scope (seen ++ [entry])
      { members := membership.members ++ [entry.1]
        places := membership.places ++ [entry.2]
        positions :=
          membership.positions.insert entry.1.id membership.members.length }
      (entries ++ [entry]) where
  members_eq := by simp [enlisted.members_eq]
  places_eq := by simp [enlisted.places_eq]
  sublist := enlisted.sublist.append (.refl [entry])
  distinct := by
    rw [List.map_append, List.map_singleton]
    refine enlisted.distinct.append (List.nodup_singleton _) ?_
    simpa using fresh
  within := by
    intro member memberIn
    rcases List.mem_append.mp memberIn with old | new
    · exact enlisted.within member old
    · rw [List.mem_singleton.mp new]
      exact inside
  first := by
    intro member memberIn other otherIn same
    rcases List.mem_append.mp memberIn with oldMember | newMember
    · rcases List.mem_append.mp otherIn with old | new
      · exact enlisted.first member oldMember other old same
      · rw [List.mem_singleton.mp new] at same
        exact absurd (same ▸ List.mem_map_of_mem oldMember) fresh
    · rw [List.mem_singleton.mp newMember] at same ⊢
      rcases List.mem_append.mp otherIn with old | new
      · have known := enlisted.complete other old (same ▸ inside)
        exact absurd (same ▸ known) fresh
      · exact Nat.le_of_eq (congrArg Prod.snd (List.mem_singleton.mp new).symm)
  complete := by
    intro other otherIn otherInside
    rw [List.map_append, List.mem_append]
    rcases List.mem_append.mp otherIn with old | new
    · exact Or.inl (enlisted.complete other old otherInside)
    · rw [List.mem_singleton.mp new]
      exact Or.inr (by simp)
  located := enlisted.located_append entry fresh

end Enlisted

/-- One entry of the catalog keeps the account of the members. -/
theorem enlisted_step
    {scope : Scope} {seen entries : List (Feature × Nat)}
    {membership : Membership}
    (enlisted : Enlisted scope seen membership entries)
    (entry : Feature × Nat)
    (later : ∀ earlier ∈ seen, earlier.2 < entry.2) :
    ∃ next,
      Enlisted scope (seen ++ [entry])
        (Membership.enlist scope membership entry) next := by
  by_cases passed :
      (!entry.1.id.inScope scope ||
        membership.positions.contains entry.1.id) = true
  · have unchanged :
        Membership.enlist scope membership entry = membership :=
      if_pos passed
    rw [unchanged]
    refine ⟨entries, enlisted.skip entry ?_ later⟩
    intro inside
    have inScope := (FeatureId.inScope_iff entry.1.id scope).mpr inside
    simp only [inScope, Bool.not_true, Bool.false_or] at passed
    exact (enlisted.contains_iff entry.1.id).mp passed
  · have taken := passed
    simp only [Bool.or_eq_true, Bool.not_eq_true', not_or,
      Bool.not_eq_false] at taken
    rw [Membership.enlist, if_neg passed]
    refine ⟨entries ++ [entry], enlisted.enlist entry ?_ ?_⟩
    · exact (FeatureId.inScope_iff entry.1.id scope).mp taken.1
    · exact fun known => taken.2 ((enlisted.contains_iff entry.1.id).mpr known)

/-- All further entries of the catalog keep the account of the members. -/
theorem enlisted_foldl
    {scope : Scope} (rest : List (Feature × Nat))
    {seen entries : List (Feature × Nat)} {membership : Membership}
    (enlisted : Enlisted scope seen membership entries)
    (ordered : (seen ++ rest).Pairwise fun left right => left.2 < right.2) :
    ∃ next,
      Enlisted scope (seen ++ rest)
        (rest.foldl (Membership.enlist scope) membership) next := by
  induction rest generalizing seen entries membership with
  | nil => exact ⟨entries, by simpa using enlisted⟩
  | cons entry rest induction =>
      have later : ∀ earlier ∈ seen, earlier.2 < entry.2 := by
        intro earlier member
        exact (List.pairwise_append.mp ordered).2.2 earlier member entry
          (by simp)
      obtain ⟨next, following⟩ := enlisted_step enlisted entry later
      rw [List.append_cons] at ordered ⊢
      exact induction following ordered

/-- The places of a catalog grow along it. -/
theorem pairwise_zipIdx (catalog : List Feature) :
    catalog.zipIdx.Pairwise fun left right => left.2 < right.2 := by
  have ordered : (catalog.zipIdx.map (·.2)).Pairwise (· < ·) := by
    rw [List.zipIdx_map_snd]
    exact List.pairwise_lt_range'
  exact List.pairwise_map.mp ordered

/-- The members of a scope are the first copies of its identities. -/
theorem exists_enlisted (scope : Scope) (catalog : List Feature) :
    ∃ entries,
      Enlisted scope catalog.zipIdx (ofCatalog scope catalog) entries := by
  have ordered := pairwise_zipIdx catalog
  exact enlisted_foldl catalog.zipIdx (enlisted_empty scope) ordered

end Membership

/-! ## First copies -/

/-- Whether an entry of a catalog is in a scope and no earlier one has its identity. -/
def IsFirstCopy
    (scope : Scope) (catalog : List Feature) (entry : Feature × Nat) : Prop :=
  entry.1.id.scope = scope ∧
    ∀ earlier ∈ catalog.take entry.2, earlier.id ≠ entry.1.id

instance (scope : Scope) (catalog : List Feature) (entry : Feature × Nat) :
    Decidable (IsFirstCopy scope catalog entry) :=
  inferInstanceAs (Decidable (_ ∧ _))

/-- The features of a scope in catalog order, each identity at its first copy. -/
def firstCopies (scope : Scope) (catalog : List Feature) : List Feature :=
  (catalog.zipIdx.filter fun entry => IsFirstCopy scope catalog entry).map
    (·.1)

namespace Membership

variable {scope : Scope} {catalog : List Feature}
variable {membership : Membership} {entries : List (Feature × Nat)}

/-- What was enlisted from a whole catalog are the first copies. -/
theorem Enlisted.mem_iff
    (enlisted : Enlisted scope catalog.zipIdx membership entries)
    (entry : Feature × Nat) :
    entry ∈ entries ↔
      entry ∈ catalog.zipIdx ∧ IsFirstCopy scope catalog entry := by
  constructor
  · intro member
    have listed := enlisted.sublist.subset member
    refine ⟨listed, enlisted.within entry member, ?_⟩
    intro earlier earlierIn same
    rcases List.mem_take_iff_getElem.mp earlierIn with ⟨place, bound, rfl⟩
    have before : place < entry.2 := Nat.lt_of_lt_of_le bound (Nat.min_le_left _ _)
    have inside : place < catalog.length :=
      Nat.lt_of_lt_of_le bound (Nat.min_le_right _ _)
    have standing : (catalog[place], place) ∈ catalog.zipIdx :=
      List.mem_zipIdx_iff_getElem?.mpr (List.getElem?_eq_getElem inside)
    exact
      absurd before
        (Nat.not_lt.mpr (enlisted.first entry member _ standing same))
  · rintro ⟨listed, within, first⟩
    rcases List.mem_map.mp (enlisted.complete entry listed within) with
      ⟨kept, keptIn, same⟩
    have keptListed := enlisted.sublist.subset keptIn
    have early := enlisted.first kept keptIn entry listed same.symm
    have keptAt := List.mem_zipIdx_iff_getElem?.mp keptListed
    have entryAt := List.mem_zipIdx_iff_getElem?.mp listed
    rcases Nat.lt_or_eq_of_le early with before | together
    · have taken : kept.1 ∈ catalog.take entry.2 := by
        apply List.mem_iff_getElem?.mpr
        exact ⟨kept.2, by rw [List.getElem?_take_of_lt before, keptAt]⟩
      exact absurd same (first kept.1 taken)
    · rw [together, entryAt, Option.some.injEq] at keptAt
      have equal : kept = entry := Prod.ext keptAt.symm together
      exact equal ▸ keptIn

/-- The members of a scope are the first copies of its identities. -/
theorem members_ofCatalog (scope : Scope) (catalog : List Feature) :
    (ofCatalog scope catalog).members = firstCopies scope catalog := by
  rcases exists_enlisted scope catalog with ⟨entries, enlisted⟩
  have ordered := pairwise_zipIdx catalog
  have distinct : catalog.zipIdx.Nodup := by
    refine ordered.imp ?_
    rintro left right before rfl
    exact Nat.lt_irrefl _ before
  have same :
      entries =
        catalog.zipIdx.filter fun entry => IsFirstCopy scope catalog entry := by
    apply List.Perm.eq_of_pairwise ?_ (ordered.sublist enlisted.sublist)
      (ordered.filter _)
    · apply (List.perm_ext_iff_of_nodup ?_ ?_).mpr
      · intro entry
        rw [enlisted.mem_iff, List.mem_filter, decide_eq_true_iff]
      · exact distinct.sublist enlisted.sublist
      · exact distinct.filter _
    · intro left right _ _ before behind
      exact absurd before (Nat.lt_asymm behind)
  rw [enlisted.members_eq, same, firstCopies]

end Membership

/-- Where no identity is repeated, all features of a scope are first copies. -/
theorem firstCopies_eq_filter
    (scope : Scope) {catalog : List Feature}
    (distinct : (catalog.map (·.id)).Nodup) :
    firstCopies scope catalog =
      catalog.filter fun feature => feature.id.scope = scope := by
  have first :
      ∀ entry ∈ catalog.zipIdx,
        ∀ earlier ∈ catalog.take entry.2, earlier.id ≠ entry.1.id := by
    intro entry member earlier earlierIn same
    rcases List.mem_take_iff_getElem.mp earlierIn with ⟨place, bound, rfl⟩
    have inside : place < (catalog.map (·.id)).length := by
      rw [List.length_map]
      exact Nat.lt_of_lt_of_le bound (Nat.min_le_right _ _)
    have together :
        (catalog.map (·.id))[place]? = (catalog.map (·.id))[entry.2]? := by
      have there := List.mem_zipIdx_iff_getElem?.mp member
      rw [List.getElem?_map, List.getElem?_map, there,
        List.getElem?_eq_getElem (by simpa using inside), Option.map_some,
        Option.map_some, same]
    have before := Nat.lt_of_lt_of_le bound (Nat.min_le_left _ _)
    have equal := (List.getElem?_inj inside distinct).mp together
    exact Nat.ne_of_lt before equal
  have kept :
      (catalog.zipIdx.filter fun entry => IsFirstCopy scope catalog entry) =
        catalog.zipIdx.filter fun entry => entry.1.id.scope = scope := by
    apply List.filter_congr
    intro entry member
    rw [decide_eq_decide, IsFirstCopy, and_iff_left (first entry member)]
  conv_rhs => rw [← List.zipIdx_map_fst 0 catalog]
  rw [firstCopies, kept, List.filter_map]
  rfl

/-- What fails a test but passes a weaker one comes behind what passes both. -/
theorem find?_eq_of_first
    {α : Type} {list : List α} {test weaker : α → Bool}
    (weakens : ∀ element ∈ list, test element = true → weaker element = true)
    (first :
      ∀ before element later,
        list = before ++ element :: later →
          (∀ other ∈ before, weaker other = false) →
            weaker element = true → test element = true) :
    list.find? test = list.find? weaker := by
  cases found : list.find? weaker with
  | none =>
      rw [List.find?_eq_none] at found ⊢
      exact fun element member passed =>
        found element member (weakens element member passed)
  | some element =>
      rcases List.find?_eq_some_iff_append.mp found with
        ⟨passed, before, later, split, failed⟩
      have none : ∀ other ∈ before, weaker other = false := by
        simpa using failed
      refine
        List.find?_eq_some_iff_append.mpr
          ⟨first before element later split none passed, before, later, split,
            ?_⟩
      intro other member
      rw [Bool.not_eq_true', Bool.eq_false_iff]
      intro strict
      have listed : other ∈ list := by
        rw [split]
        exact List.mem_append_left _ member
      exact
        Bool.eq_false_iff.mp (none other member)
          (weakens other listed strict)

/-- The first feature of a scope that passes a test of its identity is a first copy. -/
theorem find?_firstCopies
    (scope : Scope) (catalog : List Feature) (test : FeatureId → Bool) :
    (firstCopies scope catalog).find? (fun feature => test feature.id) =
      catalog.find? fun feature =>
        feature.id.scope = scope ∧ test feature.id := by
  conv_rhs => rw [← List.zipIdx_map_fst 0 catalog]
  rw [firstCopies, List.find?_map, List.find?_map, List.find?_filter]
  congr 1
  apply find?_eq_of_first
  · intro entry member passed
    have both := of_decide_eq_true passed
    exact decide_eq_true ⟨(of_decide_eq_true both.1).1, both.2⟩
  · intro before entry later split failed passed
    rcases of_decide_eq_true passed with ⟨within, tested⟩
    refine decide_eq_true ⟨decide_eq_true ⟨within, ?_⟩, tested⟩
    -- An earlier copy would have passed the weaker test.
    intro earlier earlierIn same
    rcases List.mem_take_iff_getElem.mp earlierIn with ⟨place, bound, rfl⟩
    have ordered := Membership.pairwise_zipIdx catalog
    have standing :
        (catalog[place], place) ∈ before ++ entry :: later :=
      split ▸ List.mem_zipIdx_iff_getElem?.mpr
        (List.getElem?_eq_getElem
          (Nat.lt_of_lt_of_le bound (Nat.min_le_right _ _)))
    have early : place < entry.2 :=
      Nat.lt_of_lt_of_le bound (Nat.min_le_left _ _)
    rw [split, List.pairwise_append, List.pairwise_cons] at ordered
    rcases List.mem_append.mp standing with listed | listed
    · refine Bool.eq_false_iff.mp (failed _ listed) (decide_eq_true ?_)
      simp only [same]
      exact ⟨within, tested⟩
    · rcases List.mem_cons.mp listed with here | behind
      · rw [← here] at early
        exact Nat.lt_irrefl _ early
      · exact Nat.lt_asymm early (ordered.2.1.1 _ behind)

end FeatureAtlas
