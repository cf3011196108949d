import FeatureAtlas.Sorting
import Mathlib.Data.List.Sort

/-!
# Sorted lists

Sorting by a total and transitive order puts every list in order.  If the
order moreover separates the elements, their sorted list is determined by the
elements alone, so it does not matter in which order they came.
-/

namespace FeatureAtlas.Sorting

variable {α : Type} {le : α → α → Bool}

theorem insertBy_eq_orderedInsert (element : α) (list : List α) :
    insertBy le element list =
      list.orderedInsert (fun left right => le left right = true)
        element := by
  induction list with
  | nil => rfl
  | cons head rest induction =>
      simp only [insertBy, List.orderedInsert, induction]

theorem sortBy_eq_insertionSort (list : List α) :
    sortBy le list =
      list.insertionSort fun left right => le left right = true := by
  induction list with
  | nil => rfl
  | cons head rest induction =>
      rw [sortBy, induction, insertBy_eq_orderedInsert,
        List.insertionSort_cons]

/-- Sorting puts a list in order. -/
theorem pairwise_sortBy
    (total : ∀ left right, le left right = true ∨ le right left = true)
    (transitive :
      ∀ first second third,
        le first second = true → le second third = true →
          le first third = true)
    (list : List α) :
    (sortBy le list).Pairwise fun left right => le left right = true := by
  have : Std.Total fun left right => le left right = true := ⟨total⟩
  have : IsTrans α fun left right => le left right = true := ⟨transitive⟩
  rw [sortBy_eq_insertionSort]
  exact List.pairwise_insertionSort _ list

/--
A list in order is what sorting makes of any list with its elements, where the
order separates them.
-/
theorem sortBy_eq_of_perm
    (total : ∀ left right, le left right = true ∨ le right left = true)
    (transitive :
      ∀ first second third,
        le first second = true → le second third = true →
          le first third = true)
    {list ordered : List α}
    (sorted : ordered.Pairwise fun left right => le left right = true)
    (separated :
      ∀ left ∈ ordered, ∀ right ∈ ordered,
        le left right = true → le right left = true → left = right)
    (shuffled : list.Perm ordered) :
    sortBy le list = ordered := by
  have same : (sortBy le list).Perm ordered :=
    (sortBy_perm le list).trans shuffled
  refine
    List.Perm.eq_of_pairwise ?_ (pairwise_sortBy total transitive list)
      sorted same
  intro left right leftIn rightIn
  exact separated left (same.mem_iff.mp leftIn) right rightIn

theorem mem_sortBy (list : List α) (element : α) :
    element ∈ sortBy le list ↔ element ∈ list :=
  (sortBy_perm le list).mem_iff

end FeatureAtlas.Sorting
