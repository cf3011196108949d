import FeatureAtlas.Graph.Relations
import Mathlib.Data.List.Basic

/-!
# Inverting dependency lists

The inverse of dependency lists names, for each target, the sources whose
lists hold it.  Because every list is without repeats, a source is noted once,
and because sources are visited in order, they come out in ascending order.
-/

namespace FeatureAtlas.Relations

theorem getElem?_noteDependent
    (dependent target : Nat) (targets : List Nat)
    (distinct : targets.Nodup) (dependents : List (List Nat)) :
    (targets.foldl (noteDependent dependent) dependents)[target]? =
      dependents[target]?.map
        (· ++ if target ∈ targets then [dependent] else []) := by
  induction targets generalizing dependents with
  | nil => simp
  | cons head rest induction =>
      rcases List.nodup_cons.mp distinct with ⟨absent, distinct⟩
      rw [List.foldl_cons, induction distinct, noteDependent,
        List.getElem?_modify]
      by_cases here : head = target
      · subst here
        cases dependents[head]? <;> simp [absent]
      · have elsewhere : target ≠ head := Ne.symm here
        cases dependents[target]? <;> simp [here, elsewhere]

theorem getElem?_foldl_noteDependent
    (entries : List (List Nat × Nat))
    (distinct : ∀ entry ∈ entries, entry.1.Nodup)
    (dependents : List (List Nat)) (target : Nat) :
    (entries.foldl
        (fun dependents (targets, dependent) =>
          targets.foldl (noteDependent dependent) dependents)
        dependents)[target]? =
      dependents[target]?.map
        (· ++ (entries.filter (target ∈ ·.1)).map (·.2)) := by
  induction entries generalizing dependents with
  | nil => simp
  | cons entry entries induction =>
      have first := distinct entry (by simp)
      have others : ∀ entry ∈ entries, entry.1.Nodup :=
        fun entry member => distinct entry (by simp [member])
      rw [List.foldl_cons, induction others,
        getElem?_noteDependent entry.2 target entry.1 first]
      by_cases noted : target ∈ entry.1 <;>
        cases dependents[target]? <;> simp [noted]

/-- Looking at the entry of an index is looking at the index. -/
theorem map_filter_zipIdx
    (dependencies : List (List Nat)) (target : Nat) :
    ((dependencies.zipIdx.filter (target ∈ ·.1)).map (·.2)) =
      (List.range dependencies.length).filter fun source =>
        target ∈ dependencies[source]?.getD [] := by
  have indices :
      List.range dependencies.length = dependencies.zipIdx.map (·.2) := by
    rw [List.zipIdx_map_snd, List.range_eq_range']
  rw [indices, List.filter_map]
  congr 1
  apply List.filter_congr
  intro entry member
  have found := List.mem_zipIdx_iff_getElem?.mp member
  simp [found]

/-- A target is paired with the sources whose lists hold it, in order. -/
theorem getElem?_invert
    {dependencies : List (List Nat)}
    (distinct : ∀ targets ∈ dependencies, targets.Nodup)
    (target : Nat) :
    (invert dependencies)[target]? =
      dependencies[target]?.map fun _ =>
        (List.range dependencies.length).filter fun source =>
          target ∈ dependencies[source]?.getD [] := by
  have lists : ∀ entry ∈ dependencies.zipIdx, entry.1.Nodup :=
    fun entry member => distinct entry.1 (List.fst_mem_of_mem_zipIdx member)
  rw [invert, getElem?_foldl_noteDependent _ lists, map_filter_zipIdx,
    List.getElem?_map]
  cases dependencies[target]? <;> simp

end FeatureAtlas.Relations
