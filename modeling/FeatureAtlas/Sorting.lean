/-!
# Stable sorting

Insertion sort by a Boolean order. Elements that the order does not separate
keep their places relative to one another.
-/

namespace FeatureAtlas.Sorting

variable {α : Type}

/-- Put an element in front of the first one that it does not follow. -/
def insertBy (le : α → α → Bool) (element : α) : List α → List α
  | [] => [element]
  | head :: rest =>
    if le element head then element :: head :: rest
    else head :: insertBy le element rest

/-- Sort a list, keeping the order of equals. -/
def sortBy (le : α → α → Bool) : List α → List α
  | [] => []
  | head :: rest => insertBy le head (sortBy le rest)

theorem insertBy_perm (le : α → α → Bool) (element : α) (list : List α) :
    (insertBy le element list).Perm (element :: list) := by
  induction list with
  | nil => simp [insertBy]
  | cons head rest hypothesis =>
    by_cases first : le element head = true
    · simp [insertBy, first]
    · simp only [insertBy, first]
      exact (hypothesis.cons head).trans (List.Perm.swap element head rest)

/-- Sorting neither loses nor repeats an element. -/
theorem sortBy_perm (le : α → α → Bool) (list : List α) :
    (sortBy le list).Perm list := by
  induction list with
  | nil => exact .refl _
  | cons head rest hypothesis =>
    exact (insertBy_perm le head (sortBy le rest)).trans (hypothesis.cons head)

end FeatureAtlas.Sorting
