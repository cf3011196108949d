import FeatureAtlas.Distinct
import Mathlib.Data.List.Induction
import Mathlib.Data.List.Nodup

/-!
# First mentions

Adding elements puts those behind the list that are not in it, each at its
first mention.  So it makes no difference whether repeats are removed before
or after, and a list without repeats is fixed by its elements up to their
order.
-/

namespace FeatureAtlas.Distinct

variable {α : Type} [DecidableEq α]

theorem ofList_concat (list : List α) (last : α) :
    ofList (list ++ [last]) = add (ofList list) last :=
  addAll_append [] list [last]

theorem ofList_eq_nil_iff {list : List α} : ofList list = [] ↔ list = [] := by
  rw [List.eq_nil_iff_forall_not_mem, List.eq_nil_iff_forall_not_mem]
  simp only [mem_ofList]

/-- The elements at their first places are what remains when later repeats are erased. -/
theorem ofList_eq_eraseDups (list : List α) : ofList list = list.eraseDups := by
  induction list using List.reverseRecOn with
  | nil => rfl
  | append_singleton list last induction =>
      rw [ofList_concat, List.eraseDups_append, ← induction]
      by_cases known : last ∈ list
      · have again : last ∈ ofList list := (mem_ofList list last).mpr known
        simp [add, again, known, List.removeAll]
      · have fresh : last ∉ ofList list := mt (mem_ofList list last).mp known
        simp [add, fresh, known, List.removeAll, List.eraseDups_cons]

/-! ## Adding behind a list -/

/-- What is not there yet is added behind the list, at its first mentions. -/
theorem addAll_eq_append_filter (list added : List α) :
    addAll list added =
      list ++ (ofList added).filter fun element => element ∉ list := by
  induction added using List.reverseRecOn with
  | nil => exact (List.append_nil list).symm
  | append_singleton added last induction =>
      have step :
          addAll list (added ++ [last]) = add (addAll list added) last :=
        addAll_append list added [last]
      rw [step, ofList_concat]
      by_cases mentioned : last ∈ added
      · have inList : last ∈ addAll list added :=
          (mem_addAll list added last).mpr (Or.inr mentioned)
        have inAdded : last ∈ ofList added :=
          (mem_ofList added last).mpr mentioned
        rw [add, if_pos inList, add, if_pos inAdded, induction]
      · have newlyAdded : last ∉ ofList added :=
          mt (mem_ofList added last).mp mentioned
        rw [add, add, if_neg newlyAdded, List.filter_append]
        by_cases there : last ∈ list
        · have known : last ∈ addAll list added :=
            (mem_addAll list added last).mpr (Or.inl there)
          rw [if_pos known, induction]
          simp [there]
        · have fresh : last ∉ addAll list added := by
            rw [mem_addAll]
            exact not_or.mpr ⟨there, mentioned⟩
          rw [if_neg fresh, induction]
          simp [there]

/-- Adding elements that are apart from the list puts them at the end as they are. -/
theorem addAll_eq_append_ofList
    {list added : List α} (apart : ∀ element ∈ added, element ∉ list) :
    addAll list added = list ++ ofList added := by
  rw [addAll_eq_append_filter]
  congr 1
  apply List.filter_eq_self.mpr
  intro element member
  exact decide_eq_true (apart element ((mem_ofList added element).mp member))

theorem ofList_eq_self {list : List α} (distinct : list.Nodup) :
    ofList list = list := by
  induction list using List.reverseRecOn with
  | nil => rfl
  | append_singleton list last induction =>
      have parts := List.nodup_append.mp distinct
      have fresh : last ∉ list := by
        intro member
        exact parts.2.2 last member last (by simp) rfl
      rw [ofList_concat, induction parts.1, add, if_neg fresh]

/-- Adding new elements without repeats puts them at the end as they are. -/
theorem addAll_eq_append {list added : List α} (distinct : (list ++ added).Nodup) :
    addAll list added = list ++ added := by
  have parts := List.nodup_append.mp distinct
  rw [addAll_eq_append_ofList, ofList_eq_self parts.2.1]
  intro element member known
  exact parts.2.2 element known element member rfl

/-- Repeats may be removed before elements are added. -/
theorem addAll_ofList (list added : List α) :
    addAll list (ofList added) = addAll list added := by
  rw [addAll_eq_append_filter, addAll_eq_append_filter,
    ofList_eq_self (nodup_ofList added)]

/-- The order of what is added decides only in which order it stands. -/
theorem addAll_perm
    (list : List α) {left right : List α}
    (same : ∀ element, element ∈ left ↔ element ∈ right) :
    (addAll list left).Perm (addAll list right) := by
  rw [addAll_eq_append_filter, addAll_eq_append_filter]
  apply List.Perm.append_left
  apply
    (List.perm_ext_iff_of_nodup ((nodup_ofList left).filter _)
      ((nodup_ofList right).filter _)).mpr
  intro element
  rw [List.mem_filter, List.mem_filter, mem_ofList, mem_ofList, same]

/-- Lists that are apart keep their first mentions side by side. -/
theorem ofList_flatMap
    {β : Type} {items : List β} {parts : β → List α}
    (apart :
      items.Pairwise fun left right =>
        ∀ element ∈ parts left, element ∉ parts right) :
    ofList (items.flatMap parts) =
      items.flatMap fun item => ofList (parts item) := by
  induction items with
  | nil => rfl
  | cons item items induction =>
      rcases List.pairwise_cons.mp apart with ⟨here, others⟩
      rw [List.flatMap_cons, List.flatMap_cons, ofList, addAll_append,
        addAll_eq_append_ofList, induction others, ofList]
      intro element member known
      rcases List.mem_flatMap.mp member with ⟨other, otherIn, there⟩
      exact
        here other otherIn element
          ((mem_ofList (parts item) element).mp known) there

/-! ## Tests and places -/

/-- Repeats that fail a test are removed before or after the others. -/
theorem filter_addAll (test : α → Bool) (list added : List α) :
    (addAll list added).filter test =
      addAll (list.filter test) (added.filter test) := by
  induction added generalizing list with
  | nil => rfl
  | cons head rest induction =>
      rw [addAll_cons, induction]
      by_cases passes : test head = true
      · have here :
            (add list head).filter test = add (list.filter test) head := by
          by_cases known : head ∈ list
          · rw [add, add, if_pos known,
              if_pos (List.mem_filter.mpr ⟨known, passes⟩)]
          · rw [add, add, if_neg known,
              if_neg fun kept => known (List.mem_of_mem_filter kept),
              List.filter_append, List.filter_singleton, passes]
            rfl
        rw [here, List.filter_cons_of_pos passes, addAll_cons]
      · have here : (add list head).filter test = list.filter test := by
          rw [add]
          split
          · rfl
          · rw [List.filter_append, List.filter_cons_of_neg passes,
              List.filter_nil, List.append_nil]
        rw [here, List.filter_cons_of_neg passes]

theorem filter_ofList (test : α → Bool) (list : List α) :
    (ofList list).filter test = ofList (list.filter test) :=
  filter_addAll test [] list

/-- A list in which one element stands everywhere has it at one first place. -/
theorem ofList_of_forall_eq
    {element : α} {others : List α}
    (same : ∀ other ∈ others, other = element) :
    ofList (element :: others) = [element] := by
  have there : ∀ other ∈ others, other ∈ [element] := by
    intro other member
    exact List.mem_singleton.mpr (same other member)
  exact addAll_of_subset there

/-- Removing repeats keeps the order in which elements first came. -/
theorem pairwise_idxOf_ofList (list : List α) :
    (ofList list).Pairwise fun left right =>
      list.idxOf left < list.idxOf right := by
  induction list using List.reverseRecOn with
  | nil => exact List.Pairwise.nil
  | append_singleton list last induction =>
      have kept :
          (ofList list).Pairwise fun left right =>
            (list ++ [last]).idxOf left < (list ++ [last]).idxOf right := by
        refine induction.imp_of_mem ?_
        intro left right leftIn rightIn before
        rw [mem_ofList] at leftIn rightIn
        rw [List.idxOf_append_of_mem leftIn,
          List.idxOf_append_of_mem rightIn]
        exact before
      rw [ofList_concat, add]
      split
      · exact kept
      · rename_i absent
        rw [mem_ofList] at absent
        refine List.pairwise_append.mpr ⟨kept, List.pairwise_singleton _ _, ?_⟩
        intro left leftIn right rightIn
        rw [mem_ofList] at leftIn
        rw [List.mem_singleton.mp rightIn, List.idxOf_append_of_mem leftIn,
          List.idxOf_append_of_notMem absent]
        exact Nat.lt_add_right _ (List.idxOf_lt_length_of_mem leftIn)

end FeatureAtlas.Distinct
