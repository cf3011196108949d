import FeatureAtlas.Proofs.Distinct
import FeatureAtlas.Proofs.Report.Calls

/-!
# Flattening by recursion

A report may be read without a stack and without tables: list the nodes of its
forest, each before those below it, take the signatures in the order in which
they first come, and for each of them what its nodes call.  Flattening gives
the records that this reading gives.
-/

namespace FeatureAtlas.Report

/-- A node of a signature has another signature right below it. -/
def CallsAnother (report : Report) (signature : String) : Prop :=
  ∃ node ∈ report.nodes,
    node.signature = signature ∧
      ∃ child ∈ node.invocations, child.signature ≠ signature

instance (report : Report) (signature : String) :
    Decidable (report.CallsAnother signature) :=
  inferInstanceAs (Decidable (∃ node ∈ report.nodes, _ ∧ ∃ child ∈ _, _))

/-- The records of a report, read off its forest. -/
def readRecords (report : Report) : List InvocationRecord :=
  let signatures := (report.nodes.map (·.signature)).eraseDups
  (signatures.filter fun signature => report.CallsAnother signature).map
    fun signature =>
      ⟨report.product, report.version, signature,
        (report.called signature).eraseDups⟩

/-! ## What is called -/

theorem callsAnother_iff {report : Report} {signature : String} :
    report.CallsAnother signature ↔ report.called signature ≠ [] := by
  constructor
  · rintro ⟨node, member, here, child, below, other⟩
    have calls : report.Calls signature child.signature :=
      ⟨node, member, here, other, child, below, rfl⟩
    exact List.ne_nil_of_mem (mem_called_iff.mpr calls)
  · intro calling
    rcases List.exists_mem_of_ne_nil _ calling with ⟨callee, listed⟩
    rcases mem_called_iff.mp listed with
      ⟨node, member, here, other, child, below, rfl⟩
    exact ⟨node, member, here, child, below, other⟩

/-- Only signatures of nodes call something. -/
theorem mem_signatures_of_called
    {report : Report} {signature : String}
    (calling : report.called signature ≠ []) :
    signature ∈ report.nodes.map (·.signature) := by
  rcases callsAnother_iff.mpr calling with ⟨node, member, rfl, -⟩
  exact List.mem_map_of_mem member

/-! ## Records -/

/-- The record of a signature: what it calls, each at its first mention. -/
def recordOf (report : Report) (signature : String) : InvocationRecord :=
  ⟨report.product, report.version, signature,
    Distinct.ofList (report.called signature)⟩

/-- A report is flattened to the records of the signatures that call something. -/
theorem flatten_eq_map (report : Report) :
    report.flatten =
      ((Distinct.ofList (report.nodes.map (·.signature))).filter
          fun signature => report.called signature ≠ []).map
        report.recordOf := by
  have entries :
      report.calls.entries =
        (Distinct.ofList (report.nodes.map (·.signature))).map
          fun signature =>
            (signature, Distinct.ofList (report.called signature)) := by
    rw [Table.entries_eq_map (nodup_keys_calls report) [], keys_calls]
    simp only [← callees_calls]
    rfl
  have kept (signature : String) :
      (!(Distinct.ofList (report.called signature)).isEmpty) =
        decide (report.called signature ≠ []) := by
    rw [Bool.eq_iff_iff, decide_eq_true_iff, Bool.not_eq_true',
      List.isEmpty_eq_false_iff, Ne, Distinct.ofList_eq_nil_iff]
  rw [flatten, entries, List.filter_map, List.map_map]
  simp only [Function.comp_def, kept]
  rfl

/-- Flattening a report gives the records that are read off its forest. -/
theorem flatten_eq_readRecords (report : Report) :
    report.flatten = report.readRecords := by
  rw [flatten_eq_map, readRecords, Distinct.ofList_eq_eraseDups]
  simp only [callsAnother_iff, ← Distinct.ofList_eq_eraseDups]
  rfl

/-- A signature below itself, and one that comes again with a call that it did not make at first. -/
example :
    (⟨"Shop", "1",
        [.node "log" [],
          .node "pay" [.node "pay" [.node "ship" []], .node "log" []],
          .node "log" [.node "ship" [], .node "log" []]]⟩ : Report).flatten =
      [⟨"Shop", "1", "log", ["ship"]⟩,
        ⟨"Shop", "1", "pay", ["log", "ship"]⟩] := by
  decide

end FeatureAtlas.Report
