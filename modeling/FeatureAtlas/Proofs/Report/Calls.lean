import FeatureAtlas.Proofs.Table
import FeatureAtlas.Report

/-!
# The calls of a report

The nodes of a forest of invocations, each before those below it, are what the
visit with a stack meets, in the same order.  So the calls that are collected
are those from each node to the nodes right below it, and flattening a report
loses none of them and makes up no other.
-/

namespace FeatureAtlas

namespace Invocation

mutual

/-- All nodes of an invocation: itself, and then those below it. -/
def nodes : Invocation → List Invocation
  | .node signature invocations =>
    .node signature invocations :: nodesAll invocations

/-- All nodes of a forest. -/
def nodesAll : List Invocation → List Invocation
  | [] => []
  | invocation :: rest => invocation.nodes ++ nodesAll rest

end

theorem nodesAll_append (first second : List Invocation) :
    nodesAll (first ++ second) = nodesAll first ++ nodesAll second := by
  induction first with
  | nil => rfl
  | cons invocation first induction =>
      rw [List.cons_append, nodesAll, nodesAll, induction, List.append_assoc]

theorem mem_nodesAll_of_mem
    {forest : List Invocation} {invocation : Invocation}
    (member : invocation ∈ forest) :
    invocation ∈ nodesAll forest := by
  induction forest with
  | nil => cases member
  | cons head forest induction =>
      rw [nodesAll, List.mem_append]
      rcases List.mem_cons.mp member with rfl | later
      · cases invocation
        exact Or.inl (List.mem_cons_self ..)
      · exact Or.inr (induction later)

mutual

/-- What stands right below a node is a node as well. -/
theorem child_mem_nodes
    (tree : Invocation) {node child : Invocation}
    (member : node ∈ tree.nodes) (below : child ∈ node.invocations) :
    child ∈ tree.nodes := by
  cases tree with
  | node signature invocations =>
      rw [nodes, List.mem_cons] at member ⊢
      rcases member with rfl | deeper
      · exact Or.inr (mem_nodesAll_of_mem below)
      · exact Or.inr (child_mem_nodesAll invocations deeper below)

theorem child_mem_nodesAll
    (forest : List Invocation) {node child : Invocation}
    (member : node ∈ nodesAll forest) (below : child ∈ node.invocations) :
    child ∈ nodesAll forest := by
  cases forest with
  | nil => cases member
  | cons tree forest =>
      rw [nodesAll, List.mem_append] at member ⊢
      rcases member with here | later
      · exact Or.inl (child_mem_nodes tree here below)
      · exact Or.inr (child_mem_nodesAll forest later below)

end

theorem sizeAll_append (first second : List Invocation) :
    sizeAll (first ++ second) = sizeAll first + sizeAll second := by
  induction first with
  | nil => exact (Nat.zero_add _).symm
  | cons invocation first induction =>
      rw [List.cons_append, sizeAll, sizeAll, induction, Nat.add_assoc]

/-- The signatures that a node calls directly, its own left out. -/
def callees (invocation : Invocation) : List String :=
  (invocation.invocations.map (·.signature)).filter
    (· ≠ invocation.signature)

theorem mem_callees {invocation : Invocation} {callee : String} :
    callee ∈ invocation.callees ↔
      callee ≠ invocation.signature ∧
        ∃ child ∈ invocation.invocations, child.signature = callee := by
  simp only [callees, List.mem_filter, List.mem_map, decide_eq_true_eq]
  exact And.comm

end Invocation

namespace Report

/-- All nodes of a report, at any depth. -/
def nodes (report : Report) : List Invocation :=
  Invocation.nodesAll report.roots

/-- The product version that a report is about. -/
def scope (report : Report) : Scope :=
  ⟨report.product, report.version⟩

/-- At some place of a report a signature calls another one directly. -/
def Calls (report : Report) (caller callee : String) : Prop :=
  ∃ node ∈ report.nodes,
    node.signature = caller ∧ callee ≠ caller ∧
      ∃ child ∈ node.invocations, child.signature = callee

/-- What the nodes of a signature call directly, node by node, without the signature itself. -/
def called (report : Report) (signature : String) : List String :=
  (report.nodes.filter fun node => node.signature = signature).flatMap
    Invocation.callees

theorem mem_called_iff {report : Report} {caller callee : String} :
    callee ∈ report.called caller ↔ report.Calls caller callee := by
  simp only [called, Calls, List.mem_flatMap, List.mem_filter,
    decide_eq_true_eq, Invocation.mem_callees, and_assoc]
  constructor
  · rintro ⟨node, member, rfl, other, below⟩
    exact ⟨node, member, rfl, other, below⟩
  · rintro ⟨node, member, rfl, other, below⟩
    exact ⟨node, member, rfl, other, below⟩

/-! ## Collecting -/

/-- The visit collects the nodes of the stack, each before those below it. -/
theorem visit_eq_foldl
    (fuel : Nat) (stack : List Invocation) (calls : Ledger)
    (enough : Invocation.sizeAll stack ≤ fuel) :
    visit fuel stack calls =
      (Invocation.nodesAll stack).foldl collect calls := by
  induction fuel generalizing stack calls with
  | zero =>
      cases stack with
      | nil => rfl
      | cons node stack =>
          cases node
          rw [Invocation.sizeAll, Invocation.size] at enough
          omega
  | succ fuel induction =>
      cases stack with
      | nil => rfl
      | cons node stack =>
          rcases node with ⟨signature, below⟩
          have fewer : Invocation.sizeAll (below ++ stack) ≤ fuel := by
            rw [Invocation.sizeAll, Invocation.size] at enough
            rw [Invocation.sizeAll_append]
            omega
          have rest :=
            induction (below ++ stack)
              (collect calls (.node signature below)) fewer
          rw [Invocation.nodesAll_append] at rest
          exact rest

/-- The calls of a report are collected from its nodes. -/
theorem calls_eq (report : Report) :
    report.calls = report.nodes.foldl collect .empty :=
  visit_eq_foldl _ _ _ (Nat.le_refl _)

theorem keys_foldl_collect (nodes : List Invocation) (calls : Ledger) :
    (nodes.foldl collect calls).keys =
      Distinct.addAll calls.keys (nodes.map (·.signature)) := by
  induction nodes generalizing calls with
  | nil => rfl
  | cons node nodes induction =>
      rw [List.foldl_cons, induction, collect, Table.keys_alter]
      rfl

/-- Callers are kept in the order in which they are first met. -/
theorem keys_calls (report : Report) :
    report.calls.keys =
      Distinct.ofList (report.nodes.map (·.signature)) := by
  rw [calls_eq, keys_foldl_collect]
  rfl

theorem nodup_keys_calls (report : Report) :
    report.calls.keys.Nodup := by
  rw [keys_calls]
  exact Distinct.nodup_ofList _

/-- The callees that are collected for a signature are what it calls, each at its first mention. -/
theorem callees_calls (report : Report) (signature : String) :
    Ledger.callees report.calls signature =
      Distinct.ofList (report.called signature) := by
  rw [calls_eq]
  -- A node is collected as a record of its callees would be.
  exact
    Ledger.callees_foldl_record Invocation.signature Invocation.callees
      report.nodes .empty signature

/-- A report holds a call exactly if it is collected. -/
theorem mem_callees_calls
    (report : Report) (caller callee : String) :
    callee ∈ Ledger.callees report.calls caller ↔
      report.Calls caller callee := by
  rw [callees_calls, Distinct.mem_ofList, mem_called_iff]

/-! ## Flattening -/

theorem scope_of_mem_flatten
    {report : Report} {record : InvocationRecord}
    (member : record ∈ report.flatten) :
    record.scope = report.scope := by
  rcases List.mem_map.mp member with ⟨entry, -, rfl⟩
  rfl

/-- The records that a report is flattened to hold its calls. -/
theorem exists_flatten_iff
    (report : Report) (caller callee : String) :
    (∃ record ∈ report.flatten,
        record.signature = caller ∧ callee ∈ record.invoked) ↔
      report.Calls caller callee := by
  rw [← mem_callees_calls, Ledger.callees]
  constructor
  · rintro ⟨record, member, rfl, invoked⟩
    rcases List.mem_map.mp member with ⟨⟨signature, called⟩, kept, rfl⟩
    have entry :=
      (Table.get?_eq_some_iff (nodup_keys_calls report)).mpr
        (List.mem_of_mem_filter kept)
    rw [entry]
    exact invoked
  · intro invoked
    cases found : report.calls.get? caller with
    | none =>
        rw [found] at invoked
        cases invoked
    | some called =>
        rw [found] at invoked
        -- An entry with a callee is not empty, so it is kept.
        have kept :
            (caller, called) ∈
              report.calls.entries.filter fun entry => !entry.2.isEmpty := by
          apply List.mem_filter.mpr
          refine ⟨Table.mem_of_get? found, ?_⟩
          simpa using List.ne_nil_of_mem invoked
        exact ⟨_, List.mem_map.mpr ⟨_, kept, rfl⟩, rfl, invoked⟩

end Report

end FeatureAtlas
