import FeatureAtlas.Proofs.Store.Catalog
import FeatureAtlas.Proofs.Store.Export
import FeatureAtlas.Proofs.Store.Operations
import FeatureAtlas.Proofs.Store.Recording

/-!
# The store and its log

Operations that do not load are accepted exactly if all that they bring passes
its checks, whatever the store; a rejected one leaves the store alone.  As
features and records touch different parts of a store, a store means the log
of the accepted operations: it comes about by putting all their features and
then entering all their records.  So it lists the features by the first
mention of each identity, with the content of the last, and holds for each
signature of a scope the callees of all records about it, each at its first
mention.
-/

namespace FeatureAtlas.Store

/-! ## Features and records apart -/

/-- Put features, and then enter records. -/
def extend
    (store : Store) (features : List Feature)
    (records : List InvocationRecord) : Store :=
  records.foldl enter (store.putAll features)

theorem put_enter
    (store : Store) (record : InvocationRecord) (feature : Feature) :
    ((store.enter record).put feature).2 =
      (store.put feature).2.enter record := by
  cases found : store.positions.get? feature.id with
  | none =>
      have same : (store.enter record).positions.get? feature.id = none :=
        found
      rw [put_of_missing found, put_of_missing same]
      rfl
  | some position =>
      have same :
          (store.enter record).positions.get? feature.id = some position :=
        found
      rw [put_of_found found, put_of_found same]
      rfl

/-- Features may be put after a record was entered or before. -/
theorem putAll_enter
    (store : Store) (record : InvocationRecord) (features : List Feature) :
    (store.enter record).putAll features =
      (store.putAll features).enter record := by
  induction features generalizing store with
  | nil => rfl
  | cons feature features induction =>
      have first := put_enter store record feature
      have next := induction (store.put feature).2
      rw [← first] at next
      exact next

theorem putAll_foldl_enter
    (store : Store) (records : List InvocationRecord)
    (features : List Feature) :
    (records.foldl enter store).putAll features =
      records.foldl enter (store.putAll features) := by
  induction records generalizing store with
  | nil => rfl
  | cons record records induction =>
      rw [List.foldl_cons, induction, putAll_enter, List.foldl_cons]

theorem extend_extend
    (store : Store) (first second : List Feature)
    (before behind : List InvocationRecord) :
    (store.extend first before).extend second behind =
      store.extend (first ++ second) (before ++ behind) := by
  rw [extend, extend, extend, putAll_foldl_enter, putAll_append,
    List.foldl_append]

theorem features_extend
    (store : Store) (features : List Feature)
    (records : List InvocationRecord) :
    (store.extend features records).features =
      (store.putAll features).features :=
  features_foldl_enter _ records

/-- What records about a signature make of its entry. -/
theorem get?_extend_empty
    (features : List Feature) (records : List InvocationRecord)
    (scope : Scope) (signature : String) :
    ((empty.extend features records).ledger scope).get? signature =
      if records.any (·.concerns scope signature) then
        some
          (Distinct.ofList
            ((records.filter (·.concerns scope signature)).flatMap
              (·.invoked)))
      else none := by
  have bare : (empty.putAll features).ledger scope = .empty := by
    rw [ledger, ledgers_putAll]
    rfl
  rw [extend, get?_foldl_enter, Ledger.callees, bare]
  rfl

/-! ## Accepted operations -/

namespace Operation

/-- Whether an operation replaces the store by what two files hold. -/
def loads : Operation → Bool
  | .load _ _ => true
  | _ => false

/-- Whether an operation on a store succeeds. -/
def accepted (store : Store) : Operation → Bool
  | .upsert feature => (store.upsert feature).1.isOk
  | .record entry => (store.record entry).1.isOk
  | .recordInvocations product version signature invoked =>
      (store.record ⟨product, version, signature, invoked⟩).1.isOk
  | .recordAll entries => (store.recordAll entries).1.isOk
  | .ingest report => (store.ingest report).1.isOk
  | .load disk paths => (Store.load disk paths).isOk

/-- The features that an operation brings. -/
def features : Operation → List Feature
  | .upsert feature => [feature]
  | _ => []

/-- The records that an operation brings; a report brings what it is flattened to. -/
def records : Operation → List InvocationRecord
  | .record entry => [entry]
  | .recordInvocations product version signature invoked =>
      [⟨product, version, signature, invoked⟩]
  | .recordAll entries => entries
  | .ingest report => report.flatten
  | _ => []

/-- All that an operation brings passes its checks. -/
def IsValid (operation : Operation) : Prop :=
  (∀ feature ∈ operation.features, feature.IsValid) ∧
    ∀ record ∈ operation.records, record.IsValid

instance (operation : Operation) : Decidable operation.IsValid :=
  inferInstanceAs (Decidable (_ ∧ _))

end Operation

/-- The operations that are accepted, beginning with a store. -/
def acceptedFrom (store : Store) : List Operation → List Operation
  | [] => []
  | operation :: rest =>
    let later := acceptedFrom (store.after operation) rest
    if operation.accepted store then operation :: later else later

/-- The accepted ones among operations on the empty store. -/
def log (operations : List Operation) : List Operation :=
  acceptedFrom empty operations

/-- The features of all accepted operations. -/
def upserted (operations : List Operation) : List Feature :=
  (log operations).flatMap Operation.features

/-- The records of all accepted operations. -/
def recorded (operations : List Operation) : List InvocationRecord :=
  (log operations).flatMap Operation.records

/-! ## One operation -/

section Outcomes

variable (store : Store)

theorem upsert_of_valid {feature : Feature} (valid : feature.IsValid) :
    store.upsert feature =
      (.ok (store.put feature).1, (store.put feature).2) := by
  have checked : feature.defect? = none := valid
  rw [upsert, checked]

theorem upsert_of_invalid {feature : Feature} (invalid : ¬feature.IsValid) :
    ∃ error, store.upsert feature = (.error error, store) := by
  rcases Option.ne_none_iff_exists'.mp invalid with ⟨defect, checked⟩
  rw [upsert, checked]
  exact ⟨_, rfl⟩

theorem recordAll_of_valid
    {records : List InvocationRecord}
    (valid : ∀ record ∈ records, record.IsValid) :
    store.recordAll records = (.ok (), records.foldl enter store) := by
  rw [recordAll, List.findSome?_eq_none_iff.mpr valid]

theorem recordAll_of_invalid
    {records : List InvocationRecord}
    (invalid : ¬∀ record ∈ records, record.IsValid) :
    ∃ error, store.recordAll records = (.error error, store) := by
  rw [recordAll]
  cases checked : records.findSome? InvocationRecord.defect? with
  | none => exact absurd (List.findSome?_eq_none_iff.mp checked) invalid
  | some defect => exact ⟨_, rfl⟩

/-- One record is recorded as a batch of its own. -/
theorem record_eq_recordAll (record : InvocationRecord) :
    store.record record = store.recordAll [record] := by
  rw [Store.record, recordAll, List.findSome?_singleton]
  cases record.defect? <;> rfl

theorem isOk_ingest (report : Report) :
    (store.ingest report).1.isOk =
      (store.recordAll report.flatten).1.isOk := by
  simp only [ingest]
  cases store.recordAll report.flatten with
  | mk outcome next => cases outcome <;> rfl

/-- Whether a batch of records is accepted and what it leaves. -/
theorem recordAll_cases (records : List InvocationRecord) :
    (∀ record ∈ records, record.IsValid) ∧
          (store.recordAll records).1.isOk = true ∧
            (store.recordAll records).2 = records.foldl enter store ∨
      (¬∀ record ∈ records, record.IsValid) ∧
          (store.recordAll records).1.isOk = false ∧
            (store.recordAll records).2 = store := by
  by_cases valid : ∀ record ∈ records, record.IsValid
  · rw [recordAll_of_valid store valid]
    exact Or.inl ⟨valid, rfl, rfl⟩
  · rcases recordAll_of_invalid store valid with ⟨error, rejected⟩
    rw [rejected]
    exact Or.inr ⟨valid, rfl, rfl⟩

theorem features_recordAll (records : List InvocationRecord) :
    (store.recordAll records).2.features = store.features := by
  rcases recordAll_cases store records with
    ⟨-, -, entered⟩ | ⟨-, -, kept⟩
  · rw [entered]
    exact features_foldl_enter store records
  · rw [kept]

end Outcomes

/--
An operation that does not load is accepted with all it brings if that is
valid, and rejected without effect if it is not.
-/
theorem after_cases
    (store : Store) {operation : Operation}
    (unloaded : operation.loads = false) :
    operation.IsValid ∧ operation.accepted store = true ∧
        store.after operation =
          store.extend operation.features operation.records ∨
      ¬operation.IsValid ∧ operation.accepted store = false ∧
        store.after operation = store := by
  have batch (records : List InvocationRecord) :
      ((∀ feature ∈ ([] : List Feature), feature.IsValid) ∧
            ∀ record ∈ records, record.IsValid) ∧
          (store.recordAll records).1.isOk = true ∧
            (store.recordAll records).2 = store.extend [] records ∨
        ¬((∀ feature ∈ ([] : List Feature), feature.IsValid) ∧
            ∀ record ∈ records, record.IsValid) ∧
          (store.recordAll records).1.isOk = false ∧
            (store.recordAll records).2 = store := by
    rw [and_iff_right (List.forall_mem_nil _)]
    exact recordAll_cases store records
  cases operation with
  | upsert feature =>
      have brings :
          (Operation.upsert feature).IsValid ↔ feature.IsValid := by
        simp [Operation.IsValid, Operation.features, Operation.records]
      rw [brings, Operation.accepted, after]
      by_cases valid : feature.IsValid
      · rw [upsert_of_valid store valid]
        exact Or.inl ⟨valid, rfl, rfl⟩
      · rcases upsert_of_invalid store valid with ⟨error, rejected⟩
        rw [rejected]
        exact Or.inr ⟨valid, rfl, rfl⟩
  | record entry =>
      rw [Operation.accepted, after, record_eq_recordAll]
      exact batch [entry]
  | recordInvocations product version signature invoked =>
      rw [Operation.accepted, after, record_eq_recordAll]
      exact batch [⟨product, version, signature, invoked⟩]
  | recordAll records =>
      exact batch records
  | ingest report =>
      rw [Operation.accepted, after, isOk_ingest, ingest_snd]
      exact batch report.flatten
  | load disk paths => cases unloaded

/-! ## All operations -/

/-- Accepted are the valid operations, and the store is extended by what they bring. -/
theorem run_from
    (store : Store) {operations : List Operation}
    (unloaded : ∀ operation ∈ operations, operation.loads = false) :
    acceptedFrom store operations =
        operations.filter (fun operation => operation.IsValid) ∧
      operations.foldl after store =
        store.extend
          ((acceptedFrom store operations).flatMap Operation.features)
          ((acceptedFrom store operations).flatMap Operation.records) := by
  induction operations generalizing store with
  | nil => exact ⟨rfl, rfl⟩
  | cons operation rest induction =>
      rcases List.forall_mem_cons.mp unloaded with ⟨here, others⟩
      rcases induction (store.after operation) others with ⟨listed, ran⟩
      rw [acceptedFrom, List.filter_cons, List.foldl_cons, ran]
      rcases after_cases store here with
        ⟨valid, accepted, next⟩ | ⟨invalid, rejected, next⟩
      · rw [if_pos accepted, if_pos (decide_eq_true valid), List.flatMap_cons,
          List.flatMap_cons, ← extend_extend, ← next]
        exact ⟨congrArg _ listed, rfl⟩
      · rw [if_neg (Bool.eq_false_iff.mp rejected),
          if_neg (mt of_decide_eq_true invalid)]
        rw [next] at listed ⊢
        exact ⟨listed, rfl⟩

section Runs

variable {operations : List Operation}

theorem log_eq_filter
    (unloaded : ∀ operation ∈ operations, operation.loads = false) :
    log operations =
      operations.filter fun operation => operation.IsValid :=
  (run_from empty unloaded).1

/-- A store is the empty one extended by what the accepted operations brought. -/
theorem run_eq_extend
    (unloaded : ∀ operation ∈ operations, operation.loads = false) :
    run operations =
      empty.extend (upserted operations) (recorded operations) :=
  (run_from empty unloaded).2

theorem valid_of_mem_log
    (unloaded : ∀ operation ∈ operations, operation.loads = false)
    {operation : Operation} (member : operation ∈ log operations) :
    operation.IsValid := by
  rw [log_eq_filter unloaded, List.mem_filter] at member
  exact of_decide_eq_true member.2

theorem valid_of_mem_upserted
    (unloaded : ∀ operation ∈ operations, operation.loads = false)
    {feature : Feature} (member : feature ∈ upserted operations) :
    feature.IsValid := by
  rcases List.mem_flatMap.mp member with ⟨operation, accepted, brought⟩
  exact (valid_of_mem_log unloaded accepted).1 feature brought

theorem valid_of_mem_recorded
    (unloaded : ∀ operation ∈ operations, operation.loads = false)
    {record : InvocationRecord} (member : record ∈ recorded operations) :
    record.IsValid := by
  rcases List.mem_flatMap.mp member with ⟨operation, accepted, brought⟩
  exact (valid_of_mem_log unloaded accepted).2 record brought

/-! ## What the store says of the log -/

theorem map_id_run
    (unloaded : ∀ operation ∈ operations, operation.loads = false) :
    (run operations).features.map (·.id) =
      Distinct.ofList ((upserted operations).map (·.id)) := by
  rw [run_eq_extend unloaded, features_extend]
  apply sound_empty.map_id_putAll
  intro feature member
  exact valid_of_mem_upserted unloaded member

theorem feature?_run
    (unloaded : ∀ operation ∈ operations, operation.loads = false)
    (id : FeatureId) :
    (run operations).feature? id = latest? (upserted operations) id := by
  have valid :
      ∀ feature ∈ upserted operations, feature.IsValid :=
    fun _ => valid_of_mem_upserted unloaded
  have put := sound_empty.feature?_putAll valid id
  rw [feature?, run_eq_extend unloaded, features_extend]
  exact put.trans Option.or_none

theorem get?_run
    (unloaded : ∀ operation ∈ operations, operation.loads = false)
    (scope : Scope) (signature : String) :
    ((run operations).ledger scope).get? signature =
      if (recorded operations).any (·.concerns scope signature) then
        some
          (Distinct.ofList
            (((recorded operations).filter
              (·.concerns scope signature)).flatMap (·.invoked)))
      else none := by
  rw [run_eq_extend unloaded, get?_extend_empty]

/-- An upsert tells whether its identity was accepted before. -/
theorem upsert_run
    (unloaded : ∀ operation ∈ operations, operation.loads = false)
    {feature : Feature} (valid : feature.IsValid) :
    ((run operations).upsert feature).1 =
      .ok (feature.id ∈ (upserted operations).map (·.id)) := by
  have replaced :
      ((run operations).put feature).1 =
        decide (feature.id ∈ (upserted operations).map (·.id)) := by
    rw [Bool.eq_iff_iff, (sound_run operations).put_fst,
      map_id_run unloaded, Distinct.mem_ofList, decide_eq_true_iff]
  rw [upsert_of_valid _ valid, replaced]

/-- Repeating an accepted record changes nothing. -/
theorem record_run
    (unloaded : ∀ operation ∈ operations, operation.loads = false)
    {record : InvocationRecord} (member : record ∈ recorded operations) :
    (run operations).record record = (.ok (), run operations) := by
  have knows : (run operations).Knows record := by
    rw [run_eq_extend unloaded]
    exact knows_foldl_enter _ member
  have known : ∀ other ∈ [record], (run operations).Knows other := by
    simpa only [List.forall_mem_singleton] using knows
  have valid : ∀ other ∈ [record], other.IsValid := by
    simpa only [List.forall_mem_singleton] using
      valid_of_mem_recorded unloaded member
  rw [record_eq_recordAll, recordAll_of_valid _ valid,
    foldl_enter_eq_self known]

end Runs

/-! ## Records in another order -/

/--
Logs with the same features whose records agree signature by signature make
stores that say the same.
-/
theorem agrees_of_logs
    {operations others : List Operation}
    (unloaded : ∀ operation ∈ operations, operation.loads = false)
    (otherUnloaded : ∀ operation ∈ others, operation.loads = false)
    (features : upserted operations = upserted others)
    (records :
      ∀ scope signature,
        (recorded operations).filter (·.concerns scope signature) =
          (recorded others).filter (·.concerns scope signature)) :
    (run operations).Agrees (run others) where
  features := by
    rw [run_eq_extend unloaded, run_eq_extend otherUnloaded,
      features_extend, features_extend, features]
  ledgers := by
    intro scope signature
    rw [get?_run unloaded, get?_run otherUnloaded,
      InvocationRecord.any_concerns (recorded operations), records,
      ← InvocationRecord.any_concerns]

section Swap

variable {before later : List Operation} {left right : InvocationRecord}

/-- What the valid ones among operations bring, if the first one records an entry. -/
theorem brought_record
    (entry : InvocationRecord) (rest : List Operation) :
    ((Operation.record entry :: rest).filter
          fun operation => operation.IsValid).flatMap Operation.features =
        (rest.filter fun operation => operation.IsValid).flatMap
          Operation.features ∧
      ((Operation.record entry :: rest).filter
          fun operation => operation.IsValid).flatMap Operation.records =
        [entry].filter (fun record => record.IsValid) ++
          (rest.filter fun operation => operation.IsValid).flatMap
            Operation.records := by
  have brings : (Operation.record entry).IsValid ↔ entry.IsValid := by
    simp [Operation.IsValid, Operation.features, Operation.records]
  by_cases valid : entry.IsValid
  · simp [brings, valid, Operation.features, Operation.records]
  · simp [brings, valid]

/-- Records that do not both concern a signature pass a test for it in either order. -/
theorem filter_swap
    {concerns : InvocationRecord → Bool}
    (apart : ¬(concerns left = true ∧ concerns right = true))
    (start rest : List InvocationRecord) :
    (start ++
          ([left].filter (fun record => record.IsValid) ++
            ([right].filter (fun record => record.IsValid) ++ rest))).filter
        concerns =
      (start ++
          ([right].filter (fun record => record.IsValid) ++
            ([left].filter (fun record => record.IsValid) ++ rest))).filter
        concerns := by
  have passes (entry : InvocationRecord) (fails : ¬concerns entry = true) :
      ([entry].filter (fun record => record.IsValid)).filter concerns =
        [] := by
    rw [List.filter_eq_nil_iff]
    intro record member
    rw [List.mem_singleton.mp (List.mem_filter.mp member).1]
    exact fails
  simp only [List.filter_append]
  rcases not_and_or.mp apart with leftFails | rightFails
  · rw [passes left leftFails, List.nil_append, List.nil_append]
  · rw [passes right rightFails, List.nil_append, List.nil_append]

/-- Two records about different signatures may change places in a log. -/
theorem agrees_of_swap
    (unloaded :
      ∀ operation ∈ before ++ .record left :: .record right :: later,
        operation.loads = false)
    (apart :
      ¬(left.scope = right.scope ∧ left.signature = right.signature)) :
    (run (before ++ .record right :: .record left :: later)).Agrees
      (run (before ++ .record left :: .record right :: later)) := by
  have otherUnloaded :
      ∀ operation ∈ before ++ .record right :: .record left :: later,
        operation.loads = false := by
    intro operation member
    apply unloaded operation
    simp only [List.mem_append, List.mem_cons] at member ⊢
    rcases member with early | other | this | late
    · exact Or.inl early
    · exact Or.inr (Or.inr (Or.inl other))
    · exact Or.inr (Or.inl this)
    · exact Or.inr (Or.inr (Or.inr late))
  apply agrees_of_logs otherUnloaded unloaded
  · rw [upserted, upserted, log_eq_filter otherUnloaded,
      log_eq_filter unloaded, List.filter_append, List.filter_append,
      List.flatMap_append, List.flatMap_append, (brought_record _ _).1,
      (brought_record _ _).1, (brought_record _ _).1, (brought_record _ _).1]
  · intro scope signature
    rw [recorded, recorded, log_eq_filter otherUnloaded,
      log_eq_filter unloaded, List.filter_append, List.filter_append,
      List.flatMap_append, List.flatMap_append, (brought_record _ _).2,
      (brought_record _ _).2, (brought_record _ _).2, (brought_record _ _).2]
    apply filter_swap
    rintro ⟨first, second⟩
    rw [InvocationRecord.concerns_iff] at first second
    exact
      apart
        ⟨second.1.trans first.1.symm, second.2.trans first.2.symm⟩

end Swap

/-! ## The meaning of a log -/

/-- What a store says of the operations that it came about by. -/
structure MeansLog (operations : List Operation) : Prop where
  /-- Accepted are the operations that bring nothing invalid. -/
  accepted :
    log operations = operations.filter fun operation => operation.IsValid
  /-- Each accepted identity is listed once, in the order of first mention. -/
  listed :
    (run operations).features.map (·.id) =
      Distinct.ofList ((upserted operations).map (·.id))
  /-- Each identity is listed with the last feature accepted for it. -/
  contents :
    ∀ feature ∈ (run operations).features,
      latest? (upserted operations) feature.id = some feature
  /-- Each valid feature replaces one if its identity was accepted before. -/
  replaced :
    ∀ before feature later,
      operations = before ++ .upsert feature :: later →
        feature.IsValid →
          ((run before).upsert feature).1 =
            .ok (feature.id ∈ (upserted before).map (·.id))
  /--
  A signature has an entry if an accepted record is about it, with the callees
  of all these records, each at its first mention.
  -/
  entries :
    ∀ scope signature,
      ((run operations).ledger scope).get? signature =
        if (recorded operations).any (·.concerns scope signature) then
          some
            (Distinct.ofList
              (((recorded operations).filter
                (·.concerns scope signature)).flatMap (·.invoked)))
        else none
  /-- Records about different signatures commute. -/
  commutes :
    ∀ before left right later,
      operations = before ++ .record left :: .record right :: later →
        ¬(left.scope = right.scope ∧ left.signature = right.signature) →
          (run (before ++ .record right :: .record left :: later)).Agrees
              (run operations) ∧
            (run (before ++ .record right :: .record left :: later)).records =
              (run operations).records
  /-- Repeating an accepted record changes nothing. -/
  repeats :
    ∀ record ∈ recorded operations,
      (run operations).record record = (.ok (), run operations)

/--
A store means the log of the operations that it came about by, whatever they
are and in whatever order, if none of them loads files.
-/
theorem run_means_log
    (operations : List Operation)
    (unloaded : ∀ operation ∈ operations, operation.loads = false) :
    MeansLog operations where
  accepted := log_eq_filter unloaded
  listed := map_id_run unloaded
  contents := by
    intro feature member
    rw [← feature?_run unloaded]
    exact
      ((sound_run operations).feature?_eq_some_iff _ feature).mpr
        ⟨member, rfl⟩
  replaced := by
    rintro before feature later rfl valid
    apply upsert_run _ valid
    intro operation member
    exact unloaded operation (List.mem_append_left _ member)
  entries := get?_run unloaded
  commutes := by
    rintro before left right later rfl apart
    have agrees := agrees_of_swap unloaded apart
    exact
      ⟨agrees,
        records_eq_of_ledgers (sound_run _) (sound_run _) agrees.ledgers⟩
  repeats := fun _ => record_run unloaded

/-! ### A log with rejected operations -/

/--
An upsert without a title and a batch with a blank signature, among operations
that are accepted.
-/
def mixed : List Operation :=
  [.upsert ⟨⟨"Shop", "", "Pay", "1"⟩, ["pay"]⟩,
    .record ⟨"Shop", "1", "pay", ["charge"]⟩,
    .recordInvocations "Shop" "1" "ship" [],
    .upsert ⟨⟨"Shop", "", " ", "1"⟩, ["ship"]⟩,
    .upsert ⟨⟨"Shop", "", "Ship", "1"⟩, ["ship"]⟩,
    .recordAll
      [⟨"Shop", "1", "pay", ["audit"]⟩, ⟨"Shop", "1", " ", []⟩],
    .upsert ⟨⟨"Shop", "", "Pay", "1"⟩, ["pay", "refund"]⟩,
    .ingest
      ⟨"Shop", "1", [.node "pay" [.node "log" [], .node "charge" []]]⟩]

/-- The rejected ones leave no trace, and the report adds what is new to the entry that is there. -/
theorem run_means_log_of_mixed :
    (∀ operation ∈ mixed, operation.loads = false) ∧
      (run mixed).features.map (·.id) =
          [⟨"Shop", "", "Pay", "1"⟩, ⟨"Shop", "", "Ship", "1"⟩] ∧
        ((run mixed).ledger ⟨"Shop", "1"⟩).get? "pay" =
            some ["charge", "log"] ∧
          ((run mixed).ledger ⟨"Shop", "1"⟩).get? "ship" = some [] ∧
            ((run mixed).ledger ⟨"Shop", "1"⟩).get? "charge" = none ∧
              (run mixed).record ⟨"Shop", "1", "pay", ["charge"]⟩ =
                (.ok (), run mixed) := by
  have unloaded : ∀ operation ∈ mixed, operation.loads = false := by decide
  have means := run_means_log mixed unloaded
  have recorded_first :
      (⟨"Shop", "1", "pay", ["charge"]⟩ : InvocationRecord) ∈
        recorded mixed := by
    decide
  refine ⟨unloaded, ?_, ?_, ?_, ?_, means.repeats _ recorded_first⟩
  · exact means.listed.trans (by decide)
  · exact (means.entries _ _).trans (by decide)
  · exact (means.entries _ _).trans (by decide)
  · exact (means.entries _ _).trans (by decide)

end FeatureAtlas.Store
