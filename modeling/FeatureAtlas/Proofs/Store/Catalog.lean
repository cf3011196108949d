import FeatureAtlas.Proofs.Store.Invariant

/-!
# The list of features

In a sound store the table of positions finds the feature that has an identity.
Putting a feature tells whether its identity is there; afterwards the
identities are those from before, with a new one at the end, and the feature
is what its identity stands for.  So features that are put one after the other
are listed in the order of their first mention, each with its last content.
-/

namespace FeatureAtlas.Store

/-- The feature that has an identity. -/
def feature? (store : Store) (id : FeatureId) : Option Feature :=
  store.features.find? fun feature => feature.id = id

namespace Sound

variable {store : Store}

theorem get?_isSome_iff (sound : store.Sound) (id : FeatureId) :
    (store.positions.get? id).isSome = true ↔
      id ∈ store.features.map (·.id) := by
  rw [Option.isSome_iff_exists, List.mem_iff_getElem?]
  constructor
  · rintro ⟨position, found⟩
    exact ⟨position, (sound.located id position).mp found⟩
  · rintro ⟨position, found⟩
    exact ⟨position, (sound.located id position).mpr found⟩

theorem missing_of_not_mem
    (sound : store.Sound) {id : FeatureId}
    (absent : id ∉ store.features.map (·.id)) :
    store.positions.get? id = none := by
  cases found : store.positions.get? id with
  | none => rfl
  | some position =>
      have here := (sound.located id position).mp found
      exact absurd (List.mem_of_getElem? here) absent

/-- The only feature of an identity is the one that is found. -/
theorem feature?_eq_some_iff
    (sound : store.Sound) (id : FeatureId) (feature : Feature) :
    store.feature? id = some feature ↔
      feature ∈ store.features ∧ feature.id = id := by
  constructor
  · intro found
    rw [feature?] at found
    have same := List.find?_some found
    exact ⟨List.mem_of_find?_eq_some found, of_decide_eq_true same⟩
  · rintro ⟨member, rfl⟩
    cases found : store.feature? feature.id with
    | none =>
        rw [feature?, List.find?_eq_none] at found
        exact absurd (decide_eq_true rfl) (found feature member)
    | some other =>
        rw [feature?] at found
        have same := List.find?_some found
        have listed := List.mem_of_find?_eq_some found
        rw [List.inj_on_of_nodup_map sound.distinct listed member
          (of_decide_eq_true same)]

/-- The table of positions finds the feature of an identity. -/
theorem feature?_eq (sound : store.Sound) (id : FeatureId) :
    store.feature? id =
      (store.positions.get? id).bind (store.features[·]?) := by
  cases found : store.positions.get? id with
  | none =>
      rw [feature?, Option.bind_none, List.find?_eq_none]
      intro feature member same
      have listed : id ∈ store.features.map (·.id) :=
        List.mem_map.mpr ⟨feature, member, of_decide_eq_true same⟩
      exact sound.not_mem_of_missing found listed
  | some position =>
      have here := (sound.located id position).mp found
      rw [List.getElem?_map, Option.map_eq_some_iff] at here
      rcases here with ⟨feature, standing, same⟩
      rw [Option.bind_some, standing]
      exact
        (sound.feature?_eq_some_iff id feature).mpr
          ⟨List.mem_of_getElem? standing, same⟩

/-! ## Putting one feature -/

/-- Putting tells whether the identity is there. -/
theorem put_fst (sound : store.Sound) (feature : Feature) :
    (store.put feature).1 = true ↔
      feature.id ∈ store.features.map (·.id) := by
  rw [← sound.get?_isSome_iff]
  cases found : store.positions.get? feature.id with
  | none => simp [put_of_missing found]
  | some position => simp [put_of_found found]

/-- Putting adds the identity at the end unless it is there. -/
theorem map_id_put (sound : store.Sound) (feature : Feature) :
    (store.put feature).2.features.map (·.id) =
      Distinct.add (store.features.map (·.id)) feature.id := by
  rw [Distinct.add]
  cases found : store.positions.get? feature.id with
  | none =>
      rw [put_of_missing found, if_neg (sound.not_mem_of_missing found),
        List.map_append, List.map_singleton]
  | some position =>
      have here := (sound.located _ position).mp found
      rw [put_of_found found, if_pos (List.mem_of_getElem? here)]
      exact map_id_set here

/-- After putting, the identity stands for the feature, and all others stand for what they did. -/
theorem feature?_put
    (sound : store.Sound) {feature : Feature} (valid : feature.IsValid)
    (id : FeatureId) :
    (store.put feature).2.feature? id =
      if feature.id = id then some feature else store.feature? id := by
  rw [(sound.put valid).feature?_eq, sound.feature?_eq]
  cases found : store.positions.get? feature.id with
  | none =>
      rw [put_of_missing found]
      simp only [Table.get?_insert]
      by_cases same : feature.id = id
      · rw [if_pos same, if_pos same, Option.bind_some,
          List.getElem?_concat_length]
      · rw [if_neg same, if_neg same]
        cases other : store.positions.get? id with
        | none => rfl
        | some position =>
            have here := (sound.located id position).mp other
            have inside := (List.getElem?_eq_some_iff.mp here).1
            rw [Option.bind_some, Option.bind_some,
              List.getElem?_append_left (by simpa using inside)]
  | some position =>
      rw [put_of_found found]
      have here := (sound.located _ position).mp found
      have inside := (List.getElem?_eq_some_iff.mp here).1
      rw [List.length_map] at inside
      by_cases same : feature.id = id
      · subst same
        simp only [found, if_pos, Option.bind_some,
          List.getElem?_set_self inside]
      · rw [if_neg same]
        cases other : store.positions.get? id with
        | none => rfl
        | some place =>
            have there := (sound.located id place).mp other
            have apart : position ≠ place := by
              intro equal
              rw [equal, there, Option.some.injEq] at here
              exact same here.symm
            simp only [Option.bind_some, List.getElem?_set_ne apart]

end Sound

/-! ## Putting several features -/

/-- Put features one after the other. -/
def putAll (store : Store) (features : List Feature) : Store :=
  features.foldl (fun store feature => (store.put feature).2) store

/-- The last of several features that has an identity. -/
def latest? (features : List Feature) (id : FeatureId) : Option Feature :=
  features.reverse.find? fun feature => feature.id = id

theorem latest?_cons
    (feature : Feature) (features : List Feature) (id : FeatureId) :
    latest? (feature :: features) id =
      (latest? features id).or
        (if feature.id = id then some feature else none) := by
  rw [latest?, List.reverse_cons, List.find?_append, latest?,
    List.find?_singleton]
  simp only [decide_eq_true_eq]

theorem putAll_append (store : Store) (first second : List Feature) :
    store.putAll (first ++ second) = (store.putAll first).putAll second :=
  List.foldl_append

/-- Features leave the ledgers alone. -/
theorem ledgers_putAll (store : Store) (features : List Feature) :
    (store.putAll features).ledgers = store.ledgers := by
  induction features generalizing store with
  | nil => rfl
  | cons feature features induction =>
      have first : (store.put feature).2.ledgers = store.ledgers := by
        cases found : store.positions.get? feature.id with
        | none => rw [put_of_missing found]
        | some position => rw [put_of_found found]
      exact (induction (store.put feature).2).trans first

namespace Sound

variable {store : Store} {features : List Feature}

theorem putAll
    (sound : store.Sound) (valid : ∀ feature ∈ features, feature.IsValid) :
    (store.putAll features).Sound := by
  apply List.foldlRecOn _ _ sound
  intro next before feature member
  exact before.put (valid feature member)

/-- The identities of features come after the known ones, in the order of first mention. -/
theorem map_id_putAll
    (sound : store.Sound) (valid : ∀ feature ∈ features, feature.IsValid) :
    (store.putAll features).features.map (·.id) =
      Distinct.addAll (store.features.map (·.id))
        (features.map (·.id)) := by
  induction features generalizing store with
  | nil => rfl
  | cons feature features induction =>
      rcases List.forall_mem_cons.mp valid with ⟨here, others⟩
      have next := induction (sound.put here) others
      rw [sound.map_id_put] at next
      exact next

/-- Features of new identities are listed at the end as they are. -/
theorem features_putAll
    (sound : store.Sound) (valid : ∀ feature ∈ features, feature.IsValid)
    (distinct : ((store.features ++ features).map (·.id)).Nodup) :
    (store.putAll features).features = store.features ++ features := by
  induction features generalizing store with
  | nil => exact (List.append_nil _).symm
  | cons feature features induction =>
      rcases List.forall_mem_cons.mp valid with ⟨here, others⟩
      have absent : feature.id ∉ store.features.map (·.id) := by
        intro member
        rw [List.map_append, List.map_cons, List.nodup_append] at distinct
        exact distinct.2.2 _ member _ (by simp) rfl
      have listed :
          (store.put feature).2.features = store.features ++ [feature] := by
        rw [put_of_missing (sound.missing_of_not_mem absent)]
      rw [List.append_cons, ← listed] at distinct
      have next := induction (sound.put here) others distinct
      rw [listed, ← List.append_cons] at next
      exact next

/-- An identity stands for the last feature that has it, and for what it did if there is none. -/
theorem feature?_putAll
    (sound : store.Sound) (valid : ∀ feature ∈ features, feature.IsValid)
    (id : FeatureId) :
    (store.putAll features).feature? id =
      (latest? features id).or (store.feature? id) := by
  induction features generalizing store with
  | nil => rfl
  | cons feature features induction =>
      rcases List.forall_mem_cons.mp valid with ⟨here, others⟩
      have next := induction (sound.put here) others
      rw [sound.feature?_put here] at next
      rw [latest?_cons, Option.or_assoc]
      apply next.trans
      by_cases same : feature.id = id
      · rw [if_pos same, if_pos same, Option.some_or]
      · rw [if_neg same, if_neg same, Option.none_or]

end Sound

end FeatureAtlas.Store
