import FeatureAtlas.Proofs.Report.Calls
import FeatureAtlas.Proofs.Store.Consistency

/-!
# Which reports are refused

A report is checked after it was flattened, so only what takes part in a call
of one signature to another is checked.  A report is refused exactly if one of
its calls has a blank part, the product and the version counting as parts of
every call.  A blank text that is in no call passes unseen: that of a report
without calls, or a signature that calls nothing but itself and that no other
one calls.
-/

namespace FeatureAtlas

open Text (isBlank)

namespace Report

/-- The product, the version or a signature at any depth is blank. -/
def HasBlank (report : Report) : Prop :=
  isBlank report.product = true ∨ isBlank report.version = true ∨
    ∃ node ∈ report.nodes, isBlank node.signature = true

/-- One signature calls another one, and one of them is blank, or the product or the version is. -/
def HasBlankCall (report : Report) : Prop :=
  ∃ caller callee,
    report.Calls caller callee ∧
      (isBlank report.product = true ∨ isBlank report.version = true ∨
        isBlank caller = true ∨ isBlank callee = true)

theorem HasBlankCall.hasBlank
    {report : Report} (blank : report.HasBlankCall) : report.HasBlank := by
  rcases blank with ⟨-, -, ⟨node, member, rfl, -, child, below, rfl⟩, part⟩
  rcases part with product | version | caller | callee
  · exact Or.inl product
  · exact Or.inr (Or.inl version)
  · exact Or.inr (Or.inr ⟨node, member, caller⟩)
  · exact
      Or.inr
        (Or.inr
          ⟨child, Invocation.child_mem_nodesAll report.roots member below,
            callee⟩)

/-! ## Flattened records -/

theorem invoked_ne_nil_of_mem_flatten
    {report : Report} {record : InvocationRecord}
    (member : record ∈ report.flatten) :
    record.invoked ≠ [] := by
  rcases List.mem_map.mp member with ⟨entry, kept, rfl⟩
  simpa using (List.mem_filter.mp kept).2

/-- A report is flattened to valid records if no call of it has a blank part, and only then. -/
theorem valid_flatten_iff (report : Report) :
    (∀ record ∈ report.flatten, record.IsValid) ↔ ¬report.HasBlankCall := by
  constructor
  · rintro valid ⟨caller, callee, called, part⟩
    rcases (exists_flatten_iff report caller callee).mpr called with
      ⟨record, member, rfl, invoked⟩
    have scope := scope_of_mem_flatten member
    have product : record.product = report.product :=
      congrArg Scope.product scope
    have version : record.version = report.version :=
      congrArg Scope.version scope
    rcases (InvocationRecord.isValid_iff record).mp (valid record member) with
      ⟨productSolid, versionSolid, callerSolid, calleesSolid⟩
    rw [← product, ← version, productSolid, versionSolid, callerSolid,
      calleesSolid callee invoked] at part
    simp at part
  · intro solid record member
    have scope := scope_of_mem_flatten member
    have product : record.product = report.product :=
      congrArg Scope.product scope
    have version : record.version = report.version :=
      congrArg Scope.version scope
    have each :
        ∀ callee ∈ record.invoked,
          isBlank record.product = false ∧ isBlank record.version = false ∧
            isBlank record.signature = false ∧ isBlank callee = false := by
      intro callee invoked
      have called :=
        (exists_flatten_iff report _ _).mp ⟨record, member, rfl, invoked⟩
      have parts := mt (fun part => ⟨_, _, called, part⟩) solid
      simpa [product, version] using parts
    -- A record that is kept has a callee, so its other parts were checked as well.
    rcases
        List.exists_mem_of_ne_nil _ (invoked_ne_nil_of_mem_flatten member) with
      ⟨some, invoked⟩
    rcases each some invoked with
      ⟨productSolid, versionSolid, callerSolid, -⟩
    exact
      (InvocationRecord.isValid_iff record).mpr
        ⟨productSolid, versionSolid, callerSolid,
          fun callee listed => (each callee listed).2.2.2⟩

end Report

namespace Store

section Outcomes

variable (store : Store) {report : Report}

theorem ingest_of_valid
    (valid : ∀ record ∈ report.flatten, record.IsValid) :
    store.ingest report =
      (.ok ⟨report.product, report.version, report.flatten.length⟩,
        report.flatten.foldl enter store) := by
  simp only [ingest, recordAll_of_valid store valid]

theorem ingest_of_invalid
    (invalid : ¬∀ record ∈ report.flatten, record.IsValid) :
    ∃ defect,
      store.ingest report = (.error (.invalidRecord defect), store) := by
  rcases recordAll_of_invalid store invalid with ⟨error, refused⟩
  have failed : (store.recordAll report.flatten).1 = .error error := by
    rw [refused]
  obtain ⟨-, -, -, defect, -, -, -, rfl⟩ := recordAll_error store failed
  exact ⟨defect, by simp only [ingest, refused]⟩

end Outcomes

/--
A store refuses a report, without effect, exactly if a call of it has a blank
part, and such a report has something blank in it; every other report is
recorded.
-/
theorem ingest_refuses_blank_calls (store : Store) (report : Report) :
    ((∃ defect,
        store.ingest report = (.error (.invalidRecord defect), store)) ↔
          report.HasBlankCall) ∧
      (report.HasBlankCall → report.HasBlank) ∧
        (¬report.HasBlankCall →
          store.ingest report =
            (.ok ⟨report.product, report.version, report.flatten.length⟩,
              report.flatten.foldl enter store)) := by
  have accepted (solid : ¬report.HasBlankCall) :=
    ingest_of_valid store (report.valid_flatten_iff.mpr solid)
  refine ⟨⟨?_, ?_⟩, Report.HasBlankCall.hasBlank, accepted⟩
  · rintro ⟨defect, refused⟩
    by_contra solid
    cases refused.symm.trans (accepted solid)
  · intro blank
    exact
      ingest_of_invalid store
        (mt report.valid_flatten_iff.mp (not_not_intro blank))

/-- Nothing in this report has a name; its only call is that of a signature to itself. -/
def unnamed : Report :=
  ⟨"", " ", [.node "" [.node "" []]]⟩

/-- Not every report with something blank in it is refused. -/
theorem ingest_accepts_unnamed :
    ¬∀ (store : Store) (report : Report),
      (∃ defect,
        store.ingest report = (.error (.invalidRecord defect), store)) ↔
          report.HasBlank := by
  intro law
  have blank : unnamed.HasBlank := Or.inl (by decide)
  have accepted :
      empty.ingest unnamed = (.ok ⟨"", " ", 0⟩, empty) := by
    decide
  rcases (law empty unnamed).mpr blank with ⟨defect, refused⟩
  cases refused.symm.trans accepted

end Store

end FeatureAtlas
