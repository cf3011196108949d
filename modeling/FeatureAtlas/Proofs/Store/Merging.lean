import FeatureAtlas.Proofs.Report.Flattening
import FeatureAtlas.Proofs.Store.Ingestion
import FeatureAtlas.Proofs.Store.Refusal

/-!
# Reports on one release

What a report does to the entry of a signature is told by what it calls from
that signature: nothing, or else it adds these callees, each at its first
mention.  Adding twice is adding one list behind the other, so two reports
come to one that joins their calls, a report that was ingested adds nothing any
more, and the order of two reports decides only in which order callees stand.
-/

namespace FeatureAtlas

namespace Report

/-- The report of the calls of two reports, those of the first one before those of the second. -/
def join (first second : Report) : Report :=
  { first with roots := first.roots ++ second.roots }

theorem called_join (first second : Report) (signature : String) :
    (first.join second).called signature =
      first.called signature ++ second.called signature := by
  have nodes : (first.join second).nodes = first.nodes ++ second.nodes :=
    Invocation.nodesAll_append first.roots second.roots
  rw [called, nodes, List.filter_append, List.flatMap_append]
  rfl

theorem calls_join_iff {first second : Report} {caller callee : String} :
    (first.join second).Calls caller callee ↔
      first.Calls caller callee ∨ second.Calls caller callee := by
  rw [← mem_called_iff, called_join, List.mem_append, mem_called_iff,
    mem_called_iff]

/-- What a report calls from a signature of a scope; it is about one scope only. -/
def calledIn (report : Report) (scope : Scope) (signature : String) : List String :=
  if report.scope = scope then report.called signature else []

theorem calledIn_join
    {first second : Report} (same : second.scope = first.scope)
    (scope : Scope) (signature : String) :
    (first.join second).calledIn scope signature =
      first.calledIn scope signature ++ second.calledIn scope signature := by
  have joined : (first.join second).scope = first.scope := rfl
  rw [calledIn, calledIn, calledIn, joined, same, called_join]
  split <;> rfl

/-- A joined report has a call with a blank part if one of the two has. -/
theorem hasBlankCall_join_iff
    {first second : Report} (same : second.scope = first.scope) :
    (first.join second).HasBlankCall ↔
      first.HasBlankCall ∨ second.HasBlankCall := by
  have product : second.product = first.product :=
    congrArg Scope.product same
  have version : second.version = first.version :=
    congrArg Scope.version same
  rw [HasBlankCall, HasBlankCall, HasBlankCall, product, version]
  simp only [calls_join_iff, or_and_right, exists_or]
  rfl

/-! ## The record of a signature -/

theorem concerns_recordOf (report : Report) (caller signature : String) :
    (report.recordOf caller).concerns report.scope signature =
      decide (caller = signature) := by
  rw [Bool.eq_iff_iff, InvocationRecord.concerns_iff, decide_eq_true_iff]
  exact and_iff_right rfl

/-- Of a signature that calls something there is one record, and of another there is none. -/
theorem filter_concerns_flatten (report : Report) (signature : String) :
    report.flatten.filter (·.concerns report.scope signature) =
      if report.called signature = [] then []
      else [report.recordOf signature] := by
  rw [flatten_eq_map, List.filter_map, List.filter_comm]
  simp only [Function.comp_def, concerns_recordOf]
  rw [List.filter_eq, (Distinct.nodup_ofList _).count]
  by_cases calling : report.called signature = []
  · rw [if_pos calling, List.filter_eq_nil_iff.mpr, List.map_nil]
    intro caller member
    rw [List.eq_of_mem_replicate member]
    simpa using calling
  · have met :
        signature ∈ Distinct.ofList (report.nodes.map (·.signature)) :=
      (Distinct.mem_ofList _ _).mpr (mem_signatures_of_called calling)
    rw [if_neg calling, if_pos met, List.replicate_one,
      List.filter_singleton, decide_eq_true calling]
    rfl

end Report

namespace Store

/-- A store accepts a report and becomes another one. -/
def Ingests (store : Store) (report : Report) (next : Store) : Prop :=
  ∃ summary, store.ingest report = (.ok summary, next)

/--
Two stores hold alike: the same features, and entries for the same signatures
of the same scopes, whose callees are related.  The order of keys in tables is
left open.
-/
structure HoldsAlike
    (related : List String → List String → Prop) (store other : Store) :
    Prop where
  features : store.features = other.features
  positions : store.positions = other.positions
  scopes :
    ∀ scope, store.ledgers.contains scope = other.ledgers.contains scope
  entries :
    ∀ scope signature,
      Option.Rel related ((store.ledger scope).get? signature)
        ((other.ledger scope).get? signature)

/-! ## Entries -/

theorem optionRel_refl
    {α : Type} {related : α → α → Prop} (self : ∀ value, related value value)
    (entry : Option α) : Option.Rel related entry entry := by
  cases entry with
  | none => exact .none
  | some value => exact .some (self value)

/-- An entry after callees were merged into it; without callees there is nothing to merge. -/
def mergedEntry
    (entry : Option (List String)) (callees : List String) :
    Option (List String) :=
  if callees = [] then entry
  else some (Distinct.addAll (entry.getD []) callees)

/-- Merging callees and then others is merging them one behind the other. -/
theorem mergedEntry_append
    (entry : Option (List String)) (first second : List String) :
    mergedEntry (mergedEntry entry first) second =
      mergedEntry entry (first ++ second) := by
  by_cases left : first = []
  · rw [left]
    rfl
  · by_cases right : second = []
    · rw [right, List.append_nil]
      rfl
    · have both : first ++ second ≠ [] := List.append_ne_nil_of_left_ne_nil left _
      rw [mergedEntry, if_neg right, mergedEntry, if_neg left, mergedEntry,
        if_neg both, Option.getD_some, Distinct.addAll_append]

/-- The order of callees decides only in which order they stand. -/
theorem mergedEntry_perm
    (entry : Option (List String)) {left right : List String}
    (same : ∀ callee, callee ∈ left ↔ callee ∈ right) :
    Option.Rel List.Perm (mergedEntry entry left)
      (mergedEntry entry right) := by
  have empty : left = [] ↔ right = [] := by
    rw [List.eq_nil_iff_forall_not_mem, List.eq_nil_iff_forall_not_mem]
    simp only [same]
  by_cases none : left = []
  · rw [mergedEntry, if_pos none, mergedEntry, if_pos (empty.mp none)]
    exact optionRel_refl List.Perm.refl entry
  · rw [mergedEntry, if_neg none, mergedEntry, if_neg (mt empty.mpr none)]
    exact .some (Distinct.addAll_perm _ same)

/-- The store with the calls of a report entered. -/
def withCalls (store : Store) (report : Report) : Store :=
  report.flatten.foldl enter store

section WithCalls

variable (store : Store) (report : Report)

theorem ingests_iff {next : Store} :
    store.Ingests report next ↔
      ¬report.HasBlankCall ∧ next = store.withCalls report := by
  rw [← report.valid_flatten_iff]
  by_cases valid : ∀ record ∈ report.flatten, record.IsValid
  · rw [Ingests, ingest_of_valid store valid, and_iff_right valid]
    simp [withCalls, eq_comm]
  · rcases ingest_of_invalid store valid with ⟨defect, refused⟩
    rw [Ingests, refused]
    simp [valid]

theorem features_withCalls : (store.withCalls report).features = store.features :=
  features_foldl_enter store report.flatten

theorem positions_withCalls :
    (store.withCalls report).positions = store.positions :=
  positions_foldl_enter store report.flatten

/-- A report opens a ledger for its scope if it calls something. -/
theorem contains_withCalls (scope : Scope) :
    (store.withCalls report).ledgers.contains scope = true ↔
      store.ledgers.contains scope = true ∨
        report.scope = scope ∧ ∃ caller callee, report.Calls caller callee := by
  rw [withCalls, contains_foldl_enter]
  apply or_congr_right
  simp only [← Report.exists_flatten_iff]
  constructor
  · rintro ⟨record, member, rfl⟩
    rcases
        List.exists_mem_of_ne_nil _
          (Report.invoked_ne_nil_of_mem_flatten member) with
      ⟨callee, invoked⟩
    exact
      ⟨(Report.scope_of_mem_flatten member).symm, _, callee, record, member,
        rfl, invoked⟩
  · rintro ⟨rfl, -, -, record, member, -, -⟩
    exact ⟨record, member, Report.scope_of_mem_flatten member⟩

/-- A report merges what it calls into the entries of its scope, and no others. -/
theorem get?_withCalls (scope : Scope) (signature : String) :
    ((store.withCalls report).ledger scope).get? signature =
      mergedEntry ((store.ledger scope).get? signature)
        (report.calledIn scope signature) := by
  by_cases here : report.scope = scope
  · subst here
    rw [withCalls, get?_foldl_enter, InvocationRecord.any_concerns,
      report.filter_concerns_flatten, Report.calledIn, if_pos rfl]
    by_cases calling : report.called signature = []
    · rw [if_pos calling, mergedEntry, if_pos calling]
      rfl
    · have about :
          [report.recordOf signature].any
              (·.concerns report.scope signature) = true := by
        rw [List.any_cons, Report.concerns_recordOf, decide_eq_true rfl,
          Bool.true_or]
      rw [if_neg calling, if_pos about, mergedEntry, if_neg calling,
        List.flatMap_singleton, Report.recordOf, Distinct.addAll_ofList]
      rfl
  · have elsewhere : ∀ record ∈ report.flatten, record.scope ≠ scope := by
      intro record member
      rwa [Report.scope_of_mem_flatten member]
    rw [withCalls, ledger_foldl_enter_of_ne store elsewhere,
      Report.calledIn, if_neg here]
    rfl

end WithCalls

/-! ## One report and another -/

section Two

variable (store : Store) (first second : Report)

/-- Two reports merge what the first one calls and then what the second one does. -/
theorem get?_withCalls_withCalls (scope : Scope) (signature : String) :
    (((store.withCalls first).withCalls second).ledger scope).get? signature =
      mergedEntry ((store.ledger scope).get? signature)
        (first.calledIn scope signature ++
          second.calledIn scope signature) := by
  rw [get?_withCalls, get?_withCalls, mergedEntry_append]

/-- Two reports on one release come to the one that joins them. -/
theorem holdsAlike_join (same : second.scope = first.scope) :
    HoldsAlike Eq ((store.withCalls first).withCalls second)
      (store.withCalls (first.join second)) where
  features := by simp only [features_withCalls]
  positions := by simp only [positions_withCalls]
  scopes := by
    intro scope
    have joined : (first.join second).scope = first.scope := rfl
    rw [Bool.eq_iff_iff]
    simp only [contains_withCalls, same, joined, Report.calls_join_iff,
      exists_or, and_or_left, or_assoc]
  entries := by
    intro scope signature
    rw [get?_withCalls_withCalls, get?_withCalls, Report.calledIn_join same]
    exact optionRel_refl Eq.refl _

/-- In either order, two reports make the same entries up to the order of callees. -/
theorem holdsAlike_swap :
    HoldsAlike List.Perm ((store.withCalls first).withCalls second)
      ((store.withCalls second).withCalls first) where
  features := by simp only [features_withCalls]
  positions := by simp only [positions_withCalls]
  scopes := by
    intro scope
    rw [Bool.eq_iff_iff]
    simp only [contains_withCalls]
    exact or_right_comm
  entries := by
    intro scope signature
    rw [get?_withCalls_withCalls, get?_withCalls_withCalls]
    apply mergedEntry_perm
    intro callee
    rw [List.mem_append, List.mem_append, or_comm]

end Two

/-! ## Once more -/

/-- A report that a store took in adds nothing at any later time. -/
theorem withCalls_eq_self_later
    (store : Store) (report : Report) {operations : List Operation}
    (unloaded : ∀ operation ∈ operations, operation.loads = false) :
    (operations.foldl after (store.withCalls report)).withCalls report =
      operations.foldl after (store.withCalls report) := by
  apply foldl_enter_eq_self
  intro record member
  have known : (store.withCalls report).Knows record :=
    knows_foldl_enter store member
  rw [(run_from (store.withCalls report) unloaded).2]
  apply Knows.foldl_enter
  rw [Knows, ledger, ledgers_putAll]
  exact known

/-! ## What reports come to -/

/-- How a store takes in two reports, together and one after the other. -/
structure MergesReports (store : Store) (first second : Report) : Prop where
  /-- One after the other they leave what the joined report leaves. -/
  joined :
    ∃ between both whole,
      store.Ingests first between ∧ between.Ingests second both ∧
        store.Ingests (first.join second) whole ∧
          both.HoldsAlike Eq whole
  /-- In the other order they make the same entries, with the same callees. -/
  swapped :
    ∃ between both other turned,
      store.Ingests first between ∧ between.Ingests second both ∧
        store.Ingests second other ∧ other.Ingests first turned ∧
          both.HoldsAlike List.Perm turned
  /--
  However the store goes on, short of loading another one in its place, a
  report changes nothing when it comes again.
  -/
  repeated :
    ∀ report next,
      store.Ingests report next →
        ∀ operations : List Operation,
          (∀ operation ∈ operations, operation.loads = false) →
            (operations.foldl after next).Ingests report
              (operations.foldl after next)

/-- Any store takes in two reports on one release as it takes in their calls. -/
theorem ingest_merges_reports
    (store : Store) {first second : Report}
    (same : second.scope = first.scope)
    (firstAccepted : ∃ next, store.Ingests first next)
    (secondAccepted : ∃ next, store.Ingests second next) :
    store.MergesReports first second := by
  rcases firstAccepted with ⟨_, firstAccepted⟩
  rcases secondAccepted with ⟨_, secondAccepted⟩
  have firstSolid := ((ingests_iff ..).mp firstAccepted).1
  have secondSolid := ((ingests_iff ..).mp secondAccepted).1
  have joinedSolid : ¬(first.join second).HasBlankCall := by
    rw [Report.hasBlankCall_join_iff same]
    exact not_or.mpr ⟨firstSolid, secondSolid⟩
  have taken {report : Report} (solid : ¬report.HasBlankCall) (store : Store) :
      store.Ingests report (store.withCalls report) :=
    (ingests_iff ..).mpr ⟨solid, rfl⟩
  refine { joined := ?joined, swapped := ?swapped, repeated := ?repeated }
  case joined =>
    exact
      ⟨_, _, _, taken firstSolid store, taken secondSolid _,
        taken joinedSolid store, holdsAlike_join store first second same⟩
  case swapped =>
    exact
      ⟨_, _, _, _, taken firstSolid store, taken secondSolid _,
        taken secondSolid store, taken firstSolid _,
        holdsAlike_swap store first second⟩
  case repeated =>
    intro report next accepted operations unloaded
    rcases (ingests_iff ..).mp accepted with ⟨solid, rfl⟩
    exact
      (ingests_iff ..).mpr
        ⟨solid, (withCalls_eq_self_later store report unloaded).symm⟩

/-! ### Two reports that share callers -/

/-- What was seen first: one signature calls two others. -/
def morning : Report :=
  ⟨"Shop", "1", [.node "pay" [.node "ship" [], .node "log" []]]⟩

/-- What was seen then: the same signature, further down, calls one of them and another one. -/
def evening : Report :=
  ⟨"Shop", "1",
    [.node "main" [.node "pay" [.node "audit" [], .node "log" []]],
      .node "ship" [.node "print" []]]⟩

/-- The callees of the shared caller are the same in either order of the reports. -/
theorem ingest_merges_reports_of_day :
    evening.scope = morning.scope ∧
      (∃ next, (run shop).Ingests morning next) ∧
        (∃ next, (run shop).Ingests evening next) ∧
          ∃ both turned : Store,
            both.HoldsAlike List.Perm turned ∧
              (both.ledger ⟨"Shop", "1"⟩).get? "pay" =
                  some ["ship", "log", "audit"] ∧
                (turned.ledger ⟨"Shop", "1"⟩).get? "pay" =
                  some ["audit", "log", "ship"] := by
  have same : evening.scope = morning.scope := rfl
  have accepted : ∃ next, (run shop).Ingests morning next :=
    ⟨((run shop).ingest morning).2, ⟨"Shop", "1", 1⟩, by decide⟩
  have otherAccepted : ∃ next, (run shop).Ingests evening next :=
    ⟨((run shop).ingest evening).2, ⟨"Shop", "1", 3⟩, by decide⟩
  have merges :=
    ingest_merges_reports (run shop) same accepted otherAccepted
  rcases merges.swapped with
    ⟨between, both, other, turned, first, second, otherFirst, otherSecond,
      alike⟩
  refine ⟨same, accepted, otherAccepted, both, turned, alike, ?_, ?_⟩
  · rw [((ingests_iff ..).mp second).2, ((ingests_iff ..).mp first).2]
    decide
  · rw [((ingests_iff ..).mp otherSecond).2,
      ((ingests_iff ..).mp otherFirst).2]
    decide

end Store

end FeatureAtlas
