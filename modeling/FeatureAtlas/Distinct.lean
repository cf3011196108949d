/-!
# Lists without repeats

Adding an element that is there changes nothing; a new one goes last. So a
list built this way keeps the order in which its elements first came.
-/

namespace FeatureAtlas.Distinct

variable {α : Type} [DecidableEq α]

/-- Add an element at the end unless it is there. -/
def add (list : List α) (element : α) : List α :=
  if element ∈ list then list else list ++ [element]

def addAll (list added : List α) : List α :=
  added.foldl add list

/-- The elements of a list at their first places. -/
def ofList (elements : List α) : List α :=
  addAll [] elements

@[simp]
theorem mem_add (list : List α) (added element : α) :
    element ∈ add list added ↔ element ∈ list ∨ element = added := by
  unfold add
  split <;> simp_all

@[simp]
theorem addAll_nil (list : List α) : addAll list [] = list := rfl

@[simp]
theorem addAll_cons (list : List α) (head : α) (rest : List α) :
    addAll list (head :: rest) = addAll (add list head) rest := rfl

theorem addAll_append (list first second : List α) :
    addAll list (first ++ second) = addAll (addAll list first) second := by
  simp [addAll]

/-- Adding gives the old elements and the added ones. -/
@[simp]
theorem mem_addAll (list added : List α) (element : α) :
    element ∈ addAll list added ↔ element ∈ list ∨ element ∈ added := by
  induction added generalizing list with
  | nil => simp
  | cons head rest hypothesis => simp [hypothesis, or_assoc]

@[simp]
theorem mem_ofList (elements : List α) (element : α) :
    element ∈ ofList elements ↔ element ∈ elements := by
  simp [ofList]

theorem nodup_add {list : List α} (distinct : list.Nodup) (element : α) :
    (add list element).Nodup := by
  unfold add
  split
  · exact distinct
  · rename_i absent
    rw [List.nodup_append]
    refine ⟨distinct, by simp, ?_⟩
    intro member inside other only same
    rw [List.mem_singleton.mp only] at same
    exact absent (same ▸ inside)

theorem nodup_addAll {list : List α} (distinct : list.Nodup) (added : List α) :
    (addAll list added).Nodup := by
  induction added generalizing list with
  | nil => exact distinct
  | cons head rest hypothesis => exact hypothesis (nodup_add distinct head)

theorem nodup_ofList (elements : List α) : (ofList elements).Nodup :=
  nodup_addAll List.nodup_nil elements

/-- What is there already is added without effect. -/
theorem addAll_of_subset {list added : List α} (there : ∀ element ∈ added, element ∈ list) :
    addAll list added = list := by
  induction added with
  | nil => rfl
  | cons head rest hypothesis =>
    rw [addAll_cons, add, if_pos (there head (by simp))]
    exact hypothesis fun element inside => there element (by simp [inside])

/-- A map that keeps elements apart may be applied before or after adding one. -/
theorem map_add
    {β : Type} [DecidableEq β] {f : α → β} {list : List α} {element : α}
    (injective : ∀ other ∈ list, f other = f element → other = element) :
    (add list element).map f = add (list.map f) (f element) := by
  have listed : f element ∈ list.map f ↔ element ∈ list := by
    constructor
    · intro member
      obtain ⟨other, here, same⟩ := List.mem_map.mp member
      exact injective other here same ▸ here
    · exact List.mem_map_of_mem
  by_cases known : element ∈ list
  · rw [add, add, if_pos known, if_pos (listed.mpr known)]
  · rw [add, add, if_neg known, if_neg (mt listed.mp known), List.map_append,
      List.map_singleton]

theorem map_addAll
    {β : Type} [DecidableEq β] {f : α → β} {list added : List α}
    (injective :
      ∀ left ∈ list ++ added, ∀ right ∈ list ++ added,
        f left = f right → left = right) :
    (addAll list added).map f = addAll (list.map f) (added.map f) := by
  induction added generalizing list with
  | nil => rfl
  | cons head rest induction =>
    have smaller : ∀ element ∈ add list head ++ rest, element ∈ list ++ head :: rest := by
      intro element member
      simp only [List.mem_append, mem_add, List.mem_cons] at member ⊢
      exact or_assoc.mp member
    rw [addAll_cons, List.map_cons, addAll_cons, induction, map_add]
    · intro other member same
      exact injective other (by simp [member]) head (by simp) same
    · intro left leftIn right rightIn
      exact injective left (smaller left leftIn) right (smaller right rightIn)

/-- A map that keeps elements apart keeps their first places. -/
theorem map_ofList
    {β : Type} [DecidableEq β] {f : α → β} {elements : List α}
    (injective :
      ∀ left ∈ elements, ∀ right ∈ elements, f left = f right → left = right) :
    (ofList elements).map f = ofList (elements.map f) :=
  map_addAll injective

end FeatureAtlas.Distinct
