/-!
# Tables

A table keeps its entries in the order in which their keys first came. Writing
an existing key leaves the entry where it is.
-/

namespace FeatureAtlas

/-- A finite map with its keys in order of first insertion. -/
structure Table (κ ν : Type) where
  entries : List (κ × ν)
deriving DecidableEq, Repr

namespace Table

variable {κ ν : Type} [DecidableEq κ]

def empty : Table κ ν := ⟨[]⟩

instance : Inhabited (Table κ ν) := ⟨empty⟩

def get? (table : Table κ ν) (key : κ) : Option ν :=
  (table.entries.find? fun entry => entry.1 = key).map (·.2)

def contains (table : Table κ ν) (key : κ) : Bool :=
  (table.get? key).isSome

def size (table : Table κ ν) : Nat :=
  table.entries.length

def keys (table : Table κ ν) : List κ :=
  table.entries.map (·.1)

/-- The entries after the value at a key became `change` of what it was; a new key goes last. -/
def alterEntries (key : κ) (change : Option ν → ν) :
    List (κ × ν) → List (κ × ν)
  | [] => [(key, change none)]
  | (key', value) :: rest =>
    if key' = key then (key', change (some value)) :: rest
    else (key', value) :: alterEntries key change rest

/-- The table in which the value at a key is `change` of what it was. -/
def alter (table : Table κ ν) (key : κ) (change : Option ν → ν) : Table κ ν :=
  ⟨alterEntries key change table.entries⟩

/-- The table with a value written at a key. -/
def insert (table : Table κ ν) (key : κ) (value : ν) : Table κ ν :=
  table.alter key fun _ => value

/-- The table that a list of entries gives; a later entry for a key replaces the earlier one. -/
def ofList (entries : List (κ × ν)) : Table κ ν :=
  entries.foldl (fun table entry => table.insert entry.1 entry.2) empty

/-- The table without the keys that satisfy a test. -/
def discard (table : Table κ ν) (test : κ → Bool) : Table κ ν :=
  ⟨table.entries.filter fun entry => !test entry.1⟩

@[simp]
theorem get?_empty (key : κ) : (empty : Table κ ν).get? key = none := rfl

/-- Altering one key changes what is read there and nowhere else. -/
@[grind =]
theorem get?_alter (table : Table κ ν) (key other : κ) (change : Option ν → ν) :
    (table.alter key change).get? other =
      if key = other then some (change (table.get? key)) else table.get? other := by
  obtain ⟨entries⟩ := table
  induction entries with
  | nil => by_cases same : key = other <;> simp [alter, alterEntries, get?, same]
  | cons entry rest hypothesis =>
    obtain ⟨key', value⟩ := entry
    simp only [alter, alterEntries, get?] at hypothesis ⊢
    by_cases here : key' = key
    · subst here
      by_cases same : key' = other <;> simp [same]
    · by_cases same : key' = other
      · subst same
        simp [here, Ne.symm here]
      · simp [here, same, hypothesis]

theorem get?_insert (table : Table κ ν) (key other : κ) (value : ν) :
    (table.insert key value).get? other =
      if key = other then some value else table.get? other := by
  simp [insert, get?_alter]

/-- Discarding keys hides what was there and nothing else. -/
@[grind =]
theorem get?_discard (table : Table κ ν) (test : κ → Bool) (key : κ) :
    (table.discard test).get? key = if test key then none else table.get? key := by
  obtain ⟨entries⟩ := table
  simp only [discard, get?, List.find?_filter]
  by_cases tested : test key
  · simp only [tested, if_true, Option.map_eq_none_iff, List.find?_eq_none]
    rintro ⟨key', value⟩ _
    by_cases same : key' = key <;> simp_all
  · have agree : (fun entry : κ × ν => !test entry.1 && decide (entry.1 = key)) =
        fun entry => decide (entry.1 = key) := by
      funext entry
      by_cases same : entry.1 = key <;> simp_all
    simp [tested, agree]

end Table

end FeatureAtlas
