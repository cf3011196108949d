import FeatureAtlas.Proofs.Table
import FeatureAtlas.Store.Files

/-!
# What holds of every store

The table of positions and the list of features agree, no identity is listed
twice, and all that is stored has passed its checks; the keys of all ledgers
are apart and no callee list repeats itself.  Every operation keeps this,
whether it succeeds or is rejected, and so does loading from any files.
-/

namespace FeatureAtlas

/-- A record is valid if none of its parts is blank. -/
theorem InvocationRecord.isValid_iff (record : InvocationRecord) :
    record.IsValid ↔
      Text.isBlank record.product = false ∧
        Text.isBlank record.version = false ∧
          Text.isBlank record.signature = false ∧
            ∀ callee ∈ record.invoked, Text.isBlank callee = false := by
  have blank :
      record.invoked.any Text.isBlank = false ↔
        ∀ callee ∈ record.invoked, Text.isBlank callee = false := by
    simp [List.any_eq_false]
  rw [← blank, IsValid, defect?]
  cases Text.isBlank record.product with
  | true => simp
  | false =>
      cases Text.isBlank record.version with
      | true => simp
      | false =>
          cases Text.isBlank record.signature with
          | true => simp
          | false => cases record.invoked.any Text.isBlank <;> simp

namespace Store

/-- What holds of a store at any time. -/
structure Sound (store : Store) : Prop where
  distinct : (store.features.map (·.id)).Nodup
  located :
    ∀ id position,
      store.positions.get? id = some position ↔
        (store.features.map (·.id))[position]? = some id
  indexed : store.positions.keys.Nodup
  valid : ∀ feature ∈ store.features, feature.IsValid
  scopes : store.ledgers.keys.Nodup
  signatures : ∀ scope, (store.ledger scope).keys.Nodup
  callees :
    ∀ scope signature invoked,
      (store.ledger scope).get? signature = some invoked →
        invoked.Nodup ∧
          InvocationRecord.IsValid
            ⟨scope.product, scope.version, signature, invoked⟩

theorem sound_empty : empty.Sound where
  distinct := List.nodup_nil
  located := by simp [empty]
  indexed := List.nodup_nil
  valid := by simp [empty]
  scopes := List.nodup_nil
  signatures := fun _ => List.nodup_nil
  callees := by simp [empty, ledger]

/-! ## Features -/

section Put

variable {store : Store} {feature : Feature}

theorem put_of_found
    {position : Nat}
    (found : store.positions.get? feature.id = some position) :
    store.put feature =
      (true,
        { store with features := store.features.set position feature }) := by
  rw [put, found]

theorem put_of_missing
    (missing : store.positions.get? feature.id = none) :
    store.put feature =
      (false,
        { store with
          features := store.features ++ [feature]
          positions :=
            store.positions.insert feature.id store.features.length }) := by
  rw [put, missing]

/-- A feature that takes the place of another has the identity that is there. -/
theorem map_id_set
    {features : List Feature} {position : Nat}
    (here : (features.map (·.id))[position]? = some feature.id) :
    (features.set position feature).map (·.id) = features.map (·.id) := by
  rw [List.map_set]
  apply List.ext_getElem?
  intro other
  rw [List.getElem?_set]
  by_cases same : position = other
  · subst same
    have inside := (List.getElem?_eq_some_iff.mp here).1
    rw [if_pos rfl, if_pos inside, here]
  · rw [if_neg same]

theorem Sound.not_mem_of_missing
    (sound : store.Sound) {id : FeatureId}
    (missing : store.positions.get? id = none) :
    id ∉ store.features.map (·.id) := by
  intro member
  obtain ⟨position, found⟩ := List.mem_iff_getElem?.mp member
  rw [(sound.located id position).mpr found] at missing
  cases missing

/-- Where a new feature is entered at the end, the table finds it there. -/
theorem Sound.located_append
    (sound : store.Sound)
    (missing : store.positions.get? feature.id = none)
    (id : FeatureId) (position : Nat) :
    (store.positions.insert feature.id store.features.length).get? id =
        some position ↔
      ((store.features ++ [feature]).map (·.id))[position]? = some id := by
  have absent := sound.not_mem_of_missing missing
  have size : store.features.length = (store.features.map (·.id)).length := by
    rw [List.length_map]
  rw [Table.get?_insert, List.map_append, List.map_singleton, size,
    List.getElem?_append]
  by_cases same : feature.id = id
  · subst same
    rw [if_pos rfl, Option.some.injEq]
    by_cases before : position < (store.features.map (·.id)).length
    · rw [if_pos before]
      constructor
      · intro here
        exact absurd before (Nat.not_lt.mpr (Nat.le_of_eq here))
      · intro found
        exact absurd (List.mem_of_getElem? found) absent
    · rw [if_neg before, List.getElem?_singleton]
      constructor
      · intro here
        simp [← here]
      · intro found
        split at found
        · omega
        · cases found
  · rw [if_neg same, sound.located id position]
    by_cases before : position < (store.features.map (·.id)).length
    · rw [if_pos before]
    · rw [if_neg before, List.getElem?_eq_none (Nat.not_lt.mp before),
        List.getElem?_singleton]
      constructor
      · intro found
        cases found
      · intro found
        split at found
        · exact absurd (Option.some.inj found) same
        · cases found

theorem Sound.replace
    (sound : store.Sound) (valid : feature.IsValid) {position : Nat}
    (here : (store.features.map (·.id))[position]? = some feature.id) :
    Sound
      { store with features := store.features.set position feature } where
  distinct := by
    rw [map_id_set here]
    exact sound.distinct
  located := by
    rw [map_id_set here]
    exact sound.located
  indexed := sound.indexed
  valid := by
    intro other member
    rcases List.mem_or_eq_of_mem_set member with old | rfl
    · exact sound.valid other old
    · exact valid
  scopes := sound.scopes
  signatures := sound.signatures
  callees := sound.callees

theorem Sound.append
    (sound : store.Sound) (valid : feature.IsValid)
    (missing : store.positions.get? feature.id = none) :
    Sound
      { store with
        features := store.features ++ [feature]
        positions :=
          store.positions.insert feature.id store.features.length } where
  distinct := by
    rw [List.map_append, List.map_singleton]
    refine sound.distinct.append (List.nodup_singleton _) ?_
    simpa using sound.not_mem_of_missing missing
  located := sound.located_append missing
  indexed := Table.nodup_keys_alter sound.indexed _ _
  valid := by
    intro other member
    rcases List.mem_append.mp member with old | new
    · exact sound.valid other old
    · rw [List.mem_singleton.mp new]
      exact valid
  scopes := sound.scopes
  signatures := sound.signatures
  callees := sound.callees

/-- Putting a valid feature into a store keeps it sound. -/
theorem Sound.put
    (sound : store.Sound) (valid : feature.IsValid) :
    (store.put feature).2.Sound := by
  cases found : store.positions.get? feature.id with
  | some position =>
      rw [put_of_found found]
      exact sound.replace valid ((sound.located _ position).mp found)
  | none =>
      rw [put_of_missing found]
      exact sound.append valid found

end Put

/-! ## Ledgers -/

theorem get?_record
    (ledger : Ledger) (signature other : String) (invoked : List String) :
    (ledger.record signature invoked).get? other =
      if signature = other then
        some (Distinct.addAll (ledger.callees signature) invoked)
      else ledger.get? other :=
  Table.get?_alter ledger signature other _

/-- Recorded or not, a signature has callees without repeats or blanks. -/
theorem Sound.callees_of
    {store : Store} (sound : store.Sound) (scope : Scope)
    (signature : String) :
    ((store.ledger scope).callees signature).Nodup ∧
      ∀ callee ∈ (store.ledger scope).callees signature,
        Text.isBlank callee = false := by
  rw [Ledger.callees]
  cases present : (store.ledger scope).get? signature with
  | none => simp
  | some known =>
      obtain ⟨distinct, valid⟩ := sound.callees scope signature known present
      exact ⟨distinct, ((InvocationRecord.isValid_iff _).mp valid).2.2.2⟩

/-- Entering a valid record keeps a store sound. -/
theorem Sound.enter
    {store : Store} (sound : store.Sound) {record : InvocationRecord}
    (valid : record.IsValid) :
    (store.enter record).Sound where
  distinct := sound.distinct
  located := sound.located
  indexed := sound.indexed
  valid := sound.valid
  scopes := Table.nodup_keys_alter sound.scopes _ _
  signatures := by
    intro scope
    rw [ledger_enter]
    by_cases same : record.scope = scope
    · rw [if_pos same]
      exact Table.nodup_keys_alter (sound.signatures scope) _ _
    · rw [if_neg same]
      exact sound.signatures scope
  callees := by
    intro scope signature invoked found
    rw [ledger_enter] at found
    by_cases same : record.scope = scope
    · subst same
      rw [if_pos rfl, get?_record] at found
      by_cases here : record.signature = signature
      · rw [if_pos here, Option.some.injEq] at found
        subst here found
        obtain ⟨product, version, named, fresh⟩ :=
          record.isValid_iff.mp valid
        obtain ⟨distinct, before⟩ :=
          sound.callees_of record.scope record.signature
        refine
          ⟨Distinct.nodup_addAll distinct _,
            (InvocationRecord.isValid_iff _).mpr
              ⟨product, version, named, ?_⟩⟩
        intro callee member
        rw [Distinct.mem_addAll] at member
        rcases member with old | new
        · exact before callee old
        · exact fresh callee new
      · rw [if_neg here] at found
        exact sound.callees record.scope signature invoked found
    · rw [if_neg same] at found
      exact sound.callees scope signature invoked found

theorem Sound.foldl_enter
    {store : Store} (sound : store.Sound) {records : List InvocationRecord}
    (valid : ∀ record ∈ records, record.IsValid) :
    (records.foldl Store.enter store).Sound := by
  refine List.foldlRecOn _ _ sound ?_
  intro next before record member
  exact before.enter (valid record member)

end Store

end FeatureAtlas
