import FeatureAtlas.Proofs.Graph.Classes
import FeatureAtlas.Proofs.Sorting

/-!
# Components of the dependencies

The classes of members that lead to each other are what a search for strongly
connected components finds.  However it lists the components and the nodes in
them, putting both in order leaves no choice, so the groups come out.
-/

namespace FeatureAtlas

/-! ## Components of a digraph -/

namespace Digraph

/-- Edges lead from one node to another, in any number. -/
def Joins (graph : Digraph) : Nat → Nat → Prop :=
  Relation.ReflTransGen fun source target => (source, target) ∈ graph.edges

/-- Lists of nodes are the strongly connected components of a digraph, in some order. -/
structure SplitsInto
    (graph : Digraph) (components : List (List Nat)) : Prop where
  shared : components.flatten.Perm (List.range graph.size)
  together :
    ∀ component ∈ components, ∀ node ∈ component,
      ∀ other < graph.size,
        other ∈ component ↔
          graph.Joins node other ∧ graph.Joins other node

end Digraph

namespace Relations

/-! ## Any search for components -/

theorem mem_digraph_edges
    {relations : Relations} (lawful : relations.Lawful)
    (source target : Nat) :
    (source, target) ∈ relations.digraph.edges ↔
      relations.Step source target := by
  simp only [digraph, List.mem_flatMap, List.mem_range, List.mem_map,
    Prod.mk.injEq]
  constructor
  · rintro ⟨_, -, _, stepped, rfl, rfl⟩
    exact stepped
  · intro stepped
    exact
      ⟨source, lawful.source_lt source target stepped, target, stepped, rfl,
        rfl⟩

/-- The nodes that edges join in both directions are those of one class. -/
theorem Lawful.mem_classAt_iff_joins
    {relations : Relations} (lawful : relations.Lawful) {position : Nat}
    (inside : position < relations.size) {other : Nat}
    (otherInside : other < relations.size) :
    other ∈ relations.classAt relations.reach position ↔
      relations.digraph.Joins position other ∧
        relations.digraph.Joins other position := by
  have edges :
      (fun source target => (source, target) ∈ relations.digraph.edges) =
        relations.Step := by
    funext source target
    exact propext (mem_digraph_edges lawful source target)
  rw [lawful.mem_classAt inside, Digraph.Joins, edges,
    Relation.reflTransGen_iff_eq_or_transGen,
    Relation.reflTransGen_iff_eq_or_transGen]
  constructor
  · rintro ⟨-, rfl | ⟨forward, backward⟩⟩
    · exact ⟨Or.inl rfl, Or.inl rfl⟩
    · exact ⟨Or.inr forward, Or.inr backward⟩
  · rintro ⟨same | forward, same' | backward⟩
    · exact ⟨otherInside, Or.inl same⟩
    · exact ⟨otherInside, Or.inl same⟩
    · exact ⟨otherInside, Or.inl same'.symm⟩
    · exact ⟨otherInside, Or.inr ⟨forward, backward⟩⟩

theorem ascends_iff (left right : Nat) :
    ascends left right = true ↔ left ≤ right := by
  simp [ascends]

theorem ascends_total (left right : Nat) :
    ascends left right = true ∨ ascends right left = true := by
  rw [ascends_iff, ascends_iff]
  exact Nat.le_total left right

theorem ascends_trans
    (first second third : Nat)
    (before : ascends first second = true)
    (behind : ascends second third = true) :
    ascends first third = true := by
  rw [ascends_iff] at before behind ⊢
  exact Nat.le_trans before behind

theorem startsBefore_iff (left right : List Nat) :
    startsBefore left right = true ↔ left.headD 0 ≤ right.headD 0 := by
  simp [startsBefore]

theorem startsBefore_total (left right : List Nat) :
    startsBefore left right = true ∨ startsBefore right left = true := by
  rw [startsBefore_iff, startsBefore_iff]
  exact Nat.le_total _ _

theorem startsBefore_trans
    (first second third : List Nat)
    (before : startsBefore first second = true)
    (behind : startsBefore second third = true) :
    startsBefore first third = true := by
  rw [startsBefore_iff] at before behind ⊢
  exact Nat.le_trans before behind

/-- Lists that have elements but none in common are different. -/
theorem nodup_of_disjoint
    {lists : List (List Nat)} (disjoint : lists.Pairwise List.Disjoint)
    (inhabited : ∀ list ∈ lists, list ≠ []) :
    lists.Nodup := by
  refine disjoint.imp_of_mem ?_
  intro left right leftIn _ apart same
  subst same
  rcases List.exists_mem_of_ne_nil left (inhabited left leftIn) with
    ⟨element, member⟩
  exact apart member member

section Search

variable {relations : Relations} {components : List (List Nat)}

theorem lt_size_of_mem_component
    (splits : relations.digraph.SplitsInto components)
    {component : List Nat} (listed : component ∈ components)
    {position : Nat} (member : position ∈ component) :
    position < relations.size := by
  have shared := splits.shared.mem_iff (a := position)
  exact List.mem_range.mp (shared.mp (List.mem_flatten_of_mem listed member))

/-- A component is the class of any of its nodes, in another order. -/
theorem Lawful.component_perm_classAt
    (lawful : relations.Lawful)
    (splits : relations.digraph.SplitsInto components)
    {component : List Nat} (listed : component ∈ components)
    {position : Nat} (member : position ∈ component) :
    component.Perm (relations.classAt relations.reach position) := by
  have inside := lt_size_of_mem_component splits listed member
  have apart : components.flatten.Nodup :=
    splits.shared.nodup_iff.mpr List.nodup_range
  refine
    (List.perm_ext_iff_of_nodup ((List.nodup_flatten.mp apart).1 _ listed)
      ((pairwise_classAt relations position).imp Nat.ne_of_lt)).mpr ?_
  intro other
  constructor
  · intro here
    have otherInside := lt_size_of_mem_component splits listed here
    exact
      (lawful.mem_classAt_iff_joins inside otherInside).mpr
        ((splits.together component listed position member other
          otherInside).mp here)
  · intro there
    have otherInside := ((lawful.mem_classAt inside other).mp there).1
    exact
      (splits.together component listed position member other
        otherInside).mpr
        ((lawful.mem_classAt_iff_joins inside otherInside).mp there)

/-- Putting a component in order yields a class. -/
theorem Lawful.sortBy_component
    (lawful : relations.Lawful)
    (splits : relations.digraph.SplitsInto components)
    {component : List Nat} (listed : component ∈ components)
    {position : Nat} (member : position ∈ component) :
    Sorting.sortBy ascends component =
      relations.classAt relations.reach position := by
  refine
    Sorting.sortBy_eq_of_perm ascends_total ascends_trans
      ((pairwise_classAt relations position).imp fun before =>
        (ascends_iff _ _).mpr (Nat.le_of_lt before))
      ?_ (lawful.component_perm_classAt splits listed member)
  intro left _ right _ before behind
  exact
    Nat.le_antisymm ((ascends_iff _ _).mp before) ((ascends_iff _ _).mp behind)

/-- The components of several nodes, each in order, are the groups in another order. -/
theorem Lawful.map_sortBy_perm_groups
    (lawful : relations.Lawful)
    (splits : relations.digraph.SplitsInto components) :
    ((components.filter fun component => 1 < component.length).map
        (Sorting.sortBy ascends)).Perm
      relations.groups := by
  apply (List.perm_ext_iff_of_nodup ?distinct ?groups).mpr
  case distinct =>
    have apart : components.flatten.Nodup :=
      splits.shared.nodup_iff.mpr List.nodup_range
    apply nodup_of_disjoint
    · apply List.pairwise_map.mpr
      refine ((List.nodup_flatten.mp apart).2.filter _).imp ?_
      intro left right disjoint position here there
      exact
        disjoint ((Sorting.mem_sortBy _ _).mp here)
          ((Sorting.mem_sortBy _ _).mp there)
    · intro group listed
      rcases List.mem_map.mp listed with ⟨component, kept, rfl⟩
      apply List.ne_nil_of_length_pos
      rw [(Sorting.sortBy_perm _ _).length_eq]
      have several := (List.mem_filter.mp kept).2
      exact Nat.zero_lt_of_lt (of_decide_eq_true several)
  case groups =>
    apply nodup_of_disjoint
    · exact (List.nodup_flatten.mp lawful.nodup_flatten_groups).2
    · intro group grouped
      rcases exists_head_of_mem_groups grouped with ⟨first, leading⟩
      exact List.ne_nil_of_mem (List.mem_of_head? leading)
  intro group
  constructor
  · intro listed
    rcases List.mem_map.mp listed with ⟨component, kept, rfl⟩
    rcases List.mem_filter.mp kept with ⟨found, several⟩
    have long := of_decide_eq_true several
    rcases List.exists_mem_of_length_pos (Nat.zero_lt_of_lt long) with
      ⟨position, member⟩
    have inside := lt_size_of_mem_component splits found member
    rw [lawful.sortBy_component splits found member]
    apply (lawful.mem_groups_iff inside (lawful.mem_classAt_self inside)).mpr
    rw [← (lawful.component_perm_classAt splits found member).length_eq]
    exact ⟨rfl, long⟩
  · intro grouped
    rcases exists_head_of_mem_groups grouped with ⟨position, leading⟩
    have member := List.mem_of_head? leading
    have inside := lawful.lt_size_of_mem_groups grouped member
    rcases (lawful.mem_groups_iff inside member).mp grouped with
      ⟨same, several⟩
    have shared := splits.shared.mem_iff (a := position)
    rcases List.mem_flatten.mp (shared.mpr (List.mem_range.mpr inside)) with
      ⟨component, found, here⟩
    have shuffled := lawful.component_perm_classAt splits found here
    rw [← same] at shuffled
    apply List.mem_map.mpr
    refine ⟨component, List.mem_filter.mpr ⟨found, ?_⟩, ?_⟩
    · rw [shuffled.length_eq]
      exact decide_eq_true several
    · rw [lawful.sortBy_component splits found here, same]

/-- Every search for components reports the same cycles. -/
theorem Lawful.cyclesBy_eq
    (lawful : relations.Lawful) {search : Digraph → List (List Nat)}
    (splits : relations.digraph.SplitsInto (search relations.digraph)) :
    relations.cyclesBy search = relations.cycles := by
  have ordered :
      Sorting.sortBy startsBefore
          (((search relations.digraph).filter fun component =>
            1 < component.length).map (Sorting.sortBy ascends)) =
        relations.groups := by
    apply Sorting.sortBy_eq_of_perm startsBefore_total startsBefore_trans
    · refine relations.pairwise_groups.imp_of_mem ?_
      intro left right leftIn rightIn ascend
      rcases exists_head_of_mem_groups leftIn with ⟨first, leading⟩
      rcases exists_head_of_mem_groups rightIn with ⟨second, following⟩
      rw [startsBefore_iff, List.headD_eq_head?_getD,
        List.headD_eq_head?_getD, leading, following]
      exact Nat.le_of_lt (ascend first leading second following)
    · intro left leftIn right rightIn before behind
      rcases exists_head_of_mem_groups leftIn with ⟨first, leading⟩
      rcases exists_head_of_mem_groups rightIn with ⟨second, following⟩
      rw [startsBefore_iff, List.headD_eq_head?_getD,
        List.headD_eq_head?_getD, leading, following] at before behind
      have same : first = second := Nat.le_antisymm before behind
      subst same
      exact
        lawful.group_eq_of_mem leftIn rightIn (List.mem_of_head? leading)
          (List.mem_of_head? following)
    · exact lawful.map_sortBy_perm_groups splits
  rw [cycles_eq_map_groups, ← ordered]
  rfl

end Search

end Relations

end FeatureAtlas
