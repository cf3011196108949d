import FeatureAtlas.Table
import Mathlib.Data.List.Nodup

/-!
# Tables without repeated keys

Altering a table keeps its keys apart.  In a table whose keys are apart the
look-up and the list of entries tell the same: a key has a value exactly if the
two stand together in the list.
-/

namespace FeatureAtlas.Table

variable {κ ν : Type} [DecidableEq κ]

theorem keys_alter (table : Table κ ν) (key : κ) (change : Option ν → ν) :
    (table.alter key change).keys =
      if key ∈ table.keys then table.keys else table.keys ++ [key] := by
  rcases table with ⟨entries⟩
  induction entries with
  | nil => rfl
  | cons entry rest induction =>
      rcases entry with ⟨here, value⟩
      simp only [keys, alter, alterEntries] at induction ⊢
      by_cases same : here = key
      · simp [same]
      · have other : ¬key = here := fun equal => same equal.symm
        rw [if_neg same, List.map_cons, induction]
        by_cases listed : key ∈ rest.map (·.1)
        · simp [listed]
        · simp [listed, other]

theorem nodup_keys_alter
    {table : Table κ ν} (distinct : table.keys.Nodup) (key : κ)
    (change : Option ν → ν) :
    (table.alter key change).keys.Nodup := by
  rw [keys_alter]
  by_cases listed : key ∈ table.keys
  · rw [if_pos listed]
    exact distinct
  · rw [if_neg listed]
    refine distinct.append (List.nodup_singleton key) ?_
    simpa using listed

/-- A change that leaves the value at a key as it is leaves the table as it is. -/
theorem alter_eq_self
    {table : Table κ ν} {key : κ} {value : ν} {change : Option ν → ν}
    (found : table.get? key = some value)
    (unchanged : change (some value) = value) :
    table.alter key change = table := by
  rcases table with ⟨entries⟩
  rw [alter]
  congr 1
  induction entries with
  | nil => cases found
  | cons entry rest induction =>
      rcases entry with ⟨here, present⟩
      rw [alterEntries]
      rw [get?, List.find?_cons] at found
      by_cases same : here = key
      · rw [decide_eq_true same, Option.map_some, Option.some.injEq] at found
        have held : present = value := found
        rw [if_pos same, held, unchanged]
      · rw [decide_eq_false same] at found
        rw [if_neg same, induction found]

theorem mem_of_get?
    {table : Table κ ν} {key : κ} {value : ν}
    (found : table.get? key = some value) :
    (key, value) ∈ table.entries := by
  rw [get?, Option.map_eq_some_iff] at found
  rcases found with ⟨⟨here, there⟩, located, rfl⟩
  have same : here = key := by
    simpa using List.find?_some located
  subst same
  exact List.mem_of_find?_eq_some located

/-- A key is among the keys if there is a value at it. -/
theorem mem_keys_iff {table : Table κ ν} {key : κ} :
    key ∈ table.keys ↔ (table.get? key).isSome = true := by
  simp [keys, get?]

/-- Where keys are apart, a key has the value that it stands with. -/
theorem get?_eq_some_iff
    {table : Table κ ν} (distinct : table.keys.Nodup) {key : κ} {value : ν} :
    table.get? key = some value ↔ (key, value) ∈ table.entries := by
  constructor
  · exact mem_of_get?
  · intro member
    cases found : table.get? key with
    | none =>
        rw [get?, Option.map_eq_none_iff, List.find?_eq_none] at found
        exact absurd (decide_eq_true rfl) (found (key, value) member)
    | some other =>
        have together :=
          List.inj_on_of_nodup_map distinct (mem_of_get? found) member rfl
        exact congrArg some (congrArg Prod.snd together)

/-- Where keys are apart, the entries are the keys with their values. -/
theorem entries_eq_map
    {table : Table κ ν} (distinct : table.keys.Nodup) (fallback : ν) :
    table.entries =
      table.keys.map fun key => (key, (table.get? key).getD fallback) := by
  rw [keys, List.map_map]
  conv_lhs => rw [← List.map_id table.entries]
  apply List.map_congr_left
  intro entry member
  have held := (get?_eq_some_iff distinct).mpr member
  rw [Function.comp_apply, held]
  rfl

end FeatureAtlas.Table
