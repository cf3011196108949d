import FeatureAtlas.Proofs.Distinct
import FeatureAtlas.Proofs.Store.Invariant

/-!
# Recording one record after the other

An entry of a ledger tells which records concerned its signature: there is one
if there was one before or if a record asked for it, and its callees are those
from before and then those of the records, each at its first mention.
-/

namespace FeatureAtlas

/-- Whether a record is about a signature of a scope. -/
def InvocationRecord.concerns
    (record : InvocationRecord) (scope : Scope) (signature : String) : Bool :=
  record.scope = scope ∧ record.signature = signature

theorem InvocationRecord.concerns_iff
    {record : InvocationRecord} {scope : Scope} {signature : String} :
    record.concerns scope signature = true ↔
      record.scope = scope ∧ record.signature = signature := by
  simp [concerns]

/-- Whether a record is about a signature is told by those that are. -/
theorem InvocationRecord.any_concerns
    (records : List InvocationRecord) (scope : Scope) (signature : String) :
    records.any (·.concerns scope signature) =
      (records.filter (·.concerns scope signature)).any
        (·.concerns scope signature) := by
  rw [List.any_filter]
  simp only [Bool.and_self]

namespace Store

theorem features_foldl_enter
    (store : Store) (records : List InvocationRecord) :
    (records.foldl enter store).features = store.features := by
  induction records generalizing store with
  | nil => rfl
  | cons record records induction => exact induction (store.enter record)

theorem positions_foldl_enter
    (store : Store) (records : List InvocationRecord) :
    (records.foldl enter store).positions = store.positions := by
  induction records generalizing store with
  | nil => rfl
  | cons record records induction => exact induction (store.enter record)

/-- Records open ledgers for their scopes. -/
theorem contains_foldl_enter
    (store : Store) (records : List InvocationRecord) (scope : Scope) :
    (records.foldl enter store).ledgers.contains scope = true ↔
      store.ledgers.contains scope = true ∨
        ∃ record ∈ records, record.scope = scope := by
  induction records generalizing store with
  | nil => simp
  | cons record records induction =>
      have here :
          (store.enter record).ledgers.contains scope = true ↔
            store.ledgers.contains scope = true ∨ record.scope = scope := by
        rw [enter, Table.contains, Table.contains, Table.get?_alter]
        by_cases same : record.scope = scope <;> simp [same]
      rw [List.foldl_cons, induction, here, or_assoc]
      simp only [List.mem_cons, exists_eq_or_imp]

/-- What one record does to the entry of a signature. -/
theorem get?_enter
    (store : Store) (record : InvocationRecord) (scope : Scope)
    (signature : String) :
    ((store.enter record).ledger scope).get? signature =
      if record.concerns scope signature then
        some
          (Distinct.addAll ((store.ledger scope).callees signature)
            record.invoked)
      else (store.ledger scope).get? signature := by
  rw [ledger_enter]
  by_cases same : record.scope = scope
  · subst same
    rw [if_pos rfl, get?_record]
    by_cases here : record.signature = signature
    · subst here
      simp [InvocationRecord.concerns]
    · simp [InvocationRecord.concerns, here]
  · simp [InvocationRecord.concerns, same]

/-- A record that tells nothing new leaves the store as it is. -/
theorem enter_eq_self
    {store : Store} {record : InvocationRecord} {known : List String}
    (found :
      (store.ledger record.scope).get? record.signature = some known)
    (there : ∀ callee ∈ record.invoked, callee ∈ known) :
    store.enter record = store := by
  rw [ledger] at found
  cases present : store.ledgers.get? record.scope with
  | none =>
      rw [present] at found
      cases found
  | some ledger =>
      rw [present, Option.getD_some] at found
      have merged : ledger.record record.signature record.invoked = ledger :=
        Table.alter_eq_self found (Distinct.addAll_of_subset there)
      have kept :
          store.ledgers.alter record.scope
              (fun ledger =>
                (ledger.getD .empty).record record.signature
                  record.invoked) =
            store.ledgers :=
        Table.alter_eq_self present merged
      rw [enter, kept]

/-- What several records do to the entry of a signature. -/
theorem get?_foldl_enter
    (store : Store) (records : List InvocationRecord) (scope : Scope)
    (signature : String) :
    ((records.foldl enter store).ledger scope).get? signature =
      if records.any (·.concerns scope signature) then
        some
          (Distinct.addAll ((store.ledger scope).callees signature)
            ((records.filter (·.concerns scope signature)).flatMap
              (·.invoked)))
      else (store.ledger scope).get? signature := by
  induction records generalizing store with
  | nil => rfl
  | cons record records induction =>
      rw [List.foldl_cons, induction, List.any_cons, List.filter_cons]
      have entry := get?_enter store record scope signature
      by_cases here : record.concerns scope signature = true
      · rw [if_pos here] at entry
        have callees :
            ((store.enter record).ledger scope).callees signature =
              Distinct.addAll ((store.ledger scope).callees signature)
                record.invoked := by
          rw [Ledger.callees, entry]
          rfl
        rw [entry, callees, here, Bool.true_or, if_pos rfl, if_pos rfl,
          List.flatMap_cons, Distinct.addAll_append]
        by_cases others :
            records.any (·.concerns scope signature) = true
        · rw [if_pos others]
        · have none :
              records.filter (·.concerns scope signature) = [] := by
            simpa [List.filter_eq_nil_iff] using others
          rw [if_neg others, none, List.flatMap_nil, Distinct.addAll_nil]
      · rw [if_neg here] at entry
        have callees :
            ((store.enter record).ledger scope).callees signature =
              (store.ledger scope).callees signature := by
          rw [Ledger.callees, entry, Ledger.callees]
        rw [entry, callees, if_neg here, Bool.eq_false_iff.mpr here,
          Bool.false_or]

/-! ## What a store knows -/

/-- What a record tells stands in its entry. -/
def Knows (store : Store) (record : InvocationRecord) : Prop :=
  ∃ known,
    (store.ledger record.scope).get? record.signature = some known ∧
      ∀ callee ∈ record.invoked, callee ∈ known

/-- A store knows the records that were entered. -/
theorem knows_foldl_enter
    (store : Store) {records : List InvocationRecord}
    {record : InvocationRecord} (member : record ∈ records) :
    (records.foldl enter store).Knows record := by
  have concerned : record.concerns record.scope record.signature = true :=
    InvocationRecord.concerns_iff.mpr ⟨rfl, rfl⟩
  have entry :=
    get?_foldl_enter store records record.scope record.signature
  rw [if_pos (List.any_eq_true.mpr ⟨record, member, concerned⟩)] at entry
  refine ⟨_, entry, ?_⟩
  intro callee invoked
  rw [Distinct.mem_addAll, List.mem_flatMap]
  exact Or.inr ⟨record, List.mem_filter.mpr ⟨member, concerned⟩, invoked⟩

/-- Entries only grow, so a store forgets nothing when records are entered. -/
theorem Knows.foldl_enter
    {store : Store} {record : InvocationRecord} (knows : store.Knows record)
    (records : List InvocationRecord) :
    (records.foldl enter store).Knows record := by
  rcases knows with ⟨known, found, there⟩
  rw [Knows, get?_foldl_enter, Ledger.callees, found, Option.getD_some]
  split
  · refine ⟨_, rfl, ?_⟩
    intro callee invoked
    exact (Distinct.mem_addAll ..).mpr (Or.inl (there callee invoked))
  · exact ⟨known, rfl, there⟩

/-- A store stays as it is when what it knows is entered. -/
theorem foldl_enter_eq_self
    {store : Store} {records : List InvocationRecord}
    (knows : ∀ record ∈ records, store.Knows record) :
    records.foldl enter store = store := by
  induction records with
  | nil => rfl
  | cons record records induction =>
      rcases List.forall_mem_cons.mp knows with ⟨⟨known, found, there⟩, others⟩
      rw [List.foldl_cons, enter_eq_self found there, induction others]

/-! ## Scope by scope -/

/-- The ledger of a scope is what the records about the scope make of it. -/
theorem ledger_foldl_enter
    (store : Store) (records : List InvocationRecord) (scope : Scope) :
    (records.foldl enter store).ledger scope =
      (records.filter (·.scope = scope)).foldl
        (fun ledger record => ledger.record record.signature record.invoked)
        (store.ledger scope) := by
  induction records generalizing store with
  | nil => rfl
  | cons record records induction =>
      have first := ledger_enter store record scope
      rw [List.foldl_cons, induction, List.filter_cons]
      by_cases same : record.scope = scope
      · rw [if_pos same] at first
        rw [if_pos (decide_eq_true same), List.foldl_cons, first]
      · rw [if_neg same] at first
        rw [if_neg (mt of_decide_eq_true same), first]

/-- Records about other scopes leave the ledger of a scope alone. -/
theorem ledger_foldl_enter_of_ne
    (store : Store) {records : List InvocationRecord} {scope : Scope}
    (elsewhere : ∀ record ∈ records, record.scope ≠ scope) :
    (records.foldl enter store).ledger scope = store.ledger scope := by
  have none : records.filter (·.scope = scope) = [] := by
    apply List.filter_eq_nil_iff.mpr
    intro record member same
    exact elsewhere record member (of_decide_eq_true same)
  rw [ledger_foldl_enter, none]
  rfl

/--
After several records a signature has the callees from before and those that
the records about it bring.
-/
theorem mem_callees_foldl_enter
    (store : Store) (records : List InvocationRecord) (scope : Scope)
    (caller callee : String) :
    callee ∈ ((records.foldl enter store).ledger scope).callees caller ↔
      callee ∈ (store.ledger scope).callees caller ∨
        ∃ record ∈ records,
          record.scope = scope ∧ record.signature = caller ∧
            callee ∈ record.invoked := by
  rw [ledger_foldl_enter]
  have entered :=
    Ledger.mem_callees_foldl_record InvocationRecord.signature
      InvocationRecord.invoked (records.filter (·.scope = scope))
      (store.ledger scope) caller callee
  simpa only [List.mem_filter, decide_eq_true_eq, and_assoc] using entered

end Store

end FeatureAtlas
