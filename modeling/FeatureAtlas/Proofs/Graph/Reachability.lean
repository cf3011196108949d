import FeatureAtlas.Graph.Cycles
import FeatureAtlas.Proofs.Graph.Adjacency

/-!
# Reachability

The search that follows dependencies with a bounded number of steps finds
exactly what one dependency or more lead to.  Between two steps every position
that was found is either pending or has had all its dependencies found; each
step takes one position from the queue, and a position joins it only when it
is found, so the bound is never met before the queue is empty.
-/

namespace FeatureAtlas.Relations

/-- The member at one position depends directly on the member at another. -/
def Step (relations : Relations) (source target : Nat) : Prop :=
  target ∈ relations.dependenciesAt source

/-- One dependency or more lead from one position to another. -/
def Leads (relations : Relations) : Nat → Nat → Prop :=
  Relation.TransGen relations.Step

theorem Lawful.dependsOn_of_step
    {relations : Relations} (lawful : relations.Lawful)
    {source target : Nat} (stepped : relations.Step source target) :
    relations.DependsOn (relations.idAt source) (relations.idAt target) :=
  (lawful.dependsOn_iff _ _).mpr ⟨source, target, rfl, rfl, stepped⟩

/-- New positions are found and queued in the same order. -/
theorem exists_foldl_discover
    (targets found pending : List Nat) (distinct : found.Nodup) :
    ∃ added,
      targets.foldl discover (found, pending) =
          (found ++ added, pending ++ added) ∧
        (found ++ added).Nodup ∧
          ∀ position,
            position ∈ found ++ added ↔
              position ∈ found ∨ position ∈ targets := by
  induction targets generalizing found pending with
  | nil => exact ⟨[], by simp, by simpa using distinct, by simp⟩
  | cons target rest induction =>
      by_cases known : target ∈ found
      · obtain ⟨added, folded, nodup, members⟩ :=
          induction found pending distinct
        refine ⟨added, ?_, nodup, ?_⟩
        · rw [List.foldl_cons, discover, if_pos known]
          exact folded
        · intro position
          rw [members position, List.mem_cons]
          constructor
          · rintro (old | new)
            · exact Or.inl old
            · exact Or.inr (Or.inr new)
          · rintro (old | rfl | new)
            · exact Or.inl old
            · exact Or.inl known
            · exact Or.inr new
      · have longer : (found ++ [target]).Nodup := by
          refine distinct.append (List.nodup_singleton target) ?_
          simpa using known
        obtain ⟨added, folded, nodup, members⟩ :=
          induction (found ++ [target]) (pending ++ [target]) longer
        refine ⟨target :: added, ?_, ?_, ?_⟩
        · rw [List.foldl_cons, discover, if_neg known]
          simpa using folded
        · simpa using nodup
        · intro position
          have listed := members position
          simp only [List.append_assoc, List.singleton_append,
            List.mem_append, List.mem_singleton] at listed
          rw [List.mem_append, listed, List.mem_cons, or_assoc]

/-- What holds between two steps of the search from a position. -/
structure Searched
    (relations : Relations) (start : Nat) (state : List Nat × List Nat) :
    Prop where
  nodup : state.1.Nodup
  reached : ∀ position ∈ state.1, relations.Leads start position
  waiting :
    ∀ position ∈ state.2, position = start ∨ position ∈ state.1
  closed :
    ∀ position, position = start ∨ position ∈ state.1 →
      position ∈ state.2 ∨
        ∀ target, relations.Step position target → target ∈ state.1

theorem searched_start (relations : Relations) (start : Nat) :
    relations.Searched start ([], [start]) where
  nodup := List.nodup_nil
  reached := by simp
  waiting := by simp
  closed := by simp

namespace Searched

variable {relations : Relations} {start : Nat}

/-- Whatever is found is a member. -/
theorem length_le
    {state : List Nat × List Nat} (lawful : relations.Lawful)
    (searched : relations.Searched start state) :
    state.1.length ≤ relations.size := by
  have inside : state.1 ⊆ List.range relations.size := by
    intro position member
    rw [List.mem_range]
    obtain ⟨source, -, last⟩ :=
      Relation.TransGen.tail'_iff.mp (searched.reached position member)
    exact lawful.target_lt source position last
  have bound := searched.nodup.length_le_of_subset inside
  rwa [List.length_range] at bound

/-- One step of the search takes a position and queues only what it finds. -/
theorem step
    {found pending : List Nat} {position : Nat}
    (searched : relations.Searched start (found, position :: pending)) :
    ∃ added,
      (relations.dependenciesAt position).foldl discover (found, pending) =
          (found ++ added, pending ++ added) ∧
        relations.Searched start (found ++ added, pending ++ added) := by
  obtain ⟨added, folded, nodup, members⟩ :=
    exists_foldl_discover (relations.dependenciesAt position) found pending
      searched.nodup
  refine ⟨added, folded, nodup, ?_, ?_, ?_⟩
  · intro other otherIn
    rcases (members other).mp otherIn with old | new
    · exact searched.reached other old
    · rcases searched.waiting position (by simp) with rfl | standing
      · exact .single new
      · exact .tail (searched.reached position standing) new
  · intro other otherIn
    rcases List.mem_append.mp otherIn with old | new
    · rcases searched.waiting other (by simp [old]) with first | standing
      · exact Or.inl first
      · exact Or.inr (List.mem_append_left added standing)
    · exact Or.inr (List.mem_append_right found new)
  · intro other known
    by_cases here : other = position
    · subst here
      refine Or.inr ?_
      intro target stepped
      exact (members target).mpr (Or.inr stepped)
    · have before : (other = start ∨ other ∈ found) ∨ other ∈ added := by
        simp only [List.mem_append] at known
        tauto
      rcases before with earlier | new
      · rcases searched.closed other earlier with queued | done
        · refine Or.inl (List.mem_append_left added ?_)
          simpa [here] using queued
        · refine Or.inr ?_
          intro target stepped
          exact List.mem_append_left added (done target stepped)
      · exact Or.inl (List.mem_append_right pending new)

/-- With enough steps the search ends with nothing pending. -/
theorem run
    {state : List Nat × List Nat} (lawful : relations.Lawful)
    (searched : relations.Searched start state) {steps : Nat}
    (enough : state.2.length + relations.size ≤ steps + state.1.length) :
    relations.Searched start (relations.search steps state, []) := by
  induction steps generalizing state with
  | zero =>
      rcases state with ⟨found, pending⟩
      have bound := searched.length_le lawful
      have empty : pending = [] := by
        apply List.eq_nil_of_length_eq_zero
        simp only at enough bound
        omega
      subst empty
      exact searched
  | succ steps induction =>
      rcases state with ⟨found, pending⟩
      cases pending with
      | nil => exact searched
      | cons position pending =>
          obtain ⟨added, folded, next⟩ := searched.step
          rw [search, folded]
          refine induction next ?_
          simp only [List.length_cons, List.length_append] at enough ⊢
          omega

end Searched

/-- The search finds exactly what dependencies lead to. -/
theorem Lawful.mem_reachable_iff
    {relations : Relations} (lawful : relations.Lawful)
    (start target : Nat) :
    target ∈ relations.reachable start ↔ relations.Leads start target := by
  have done :
      relations.Searched start (relations.reachable start, []) :=
    (relations.searched_start start).run lawful (by simp; omega)
  have closed :
      ∀ position,
        position = start ∨ position ∈ relations.reachable start →
          ∀ next, relations.Step position next →
            next ∈ relations.reachable start := by
    intro position known
    rcases done.closed position known with queued | settled
    · simp at queued
    · exact settled
  constructor
  · exact done.reached target
  · intro leads
    induction leads with
    | single stepped => exact closed start (Or.inl rfl) _ stepped
    | tail _ stepped induction => exact closed _ (Or.inr induction) _ stepped

end FeatureAtlas.Relations
