import FeatureAtlas.Proofs.Graph.Dependence
import FeatureAtlas.Proofs.Report.Calls
import FeatureAtlas.Proofs.Store.Log

/-!
# What a report adds

An accepted report leaves the features alone and adds its calls to the ledger
of its scope, wherever in the forest they were made.  So a feature comes to
depend on the owners of what the report has its signatures call; it loses no
dependency, gains no other one, and nothing changes in any other scope.
-/

namespace FeatureAtlas.Store

/-- The relations of a scope of a store, where conflicts are only listed. -/
def relations (store : Store) (scope : Scope) : Except Error Relations :=
  Relations.build .firstWins store.features scope (store.ledger scope)

theorem exists_relations (store : Store) (scope : Scope) :
    ∃ relations, store.relations scope = .ok relations :=
  Relations.exists_build_firstWins _ _ _

/-! ## The store behind a report -/

section Ingested

variable {store next : Store} {report : Report} {summary : IngestSummary}

/-- An accepted report leaves the store with its records entered. -/
theorem next_of_ingest
    (accepted : store.ingest report = (.ok summary, next)) :
    next = report.flatten.foldl enter store := by
  have left : (store.recordAll report.flatten).2 = next := by
    rw [← ingest_snd, accepted]
  have passed : (store.recordAll report.flatten).1.isOk = true := by
    rw [← isOk_ingest, accepted]
    rfl
  rcases recordAll_cases store report.flatten with
    ⟨-, -, entered⟩ | ⟨-, failed, -⟩
  · exact left.symm.trans entered
  · exact absurd (failed.symm.trans passed) Bool.false_ne_true

theorem features_of_ingest
    (accepted : store.ingest report = (.ok summary, next)) :
    next.features = store.features := by
  rw [next_of_ingest accepted]
  exact features_foldl_enter store _

/-- A report adds its calls to the ledger of its scope. -/
theorem mem_callees_of_ingest
    (accepted : store.ingest report = (.ok summary, next))
    (caller callee : String) :
    callee ∈ (next.ledger report.scope).callees caller ↔
      callee ∈ (store.ledger report.scope).callees caller ∨
        report.Calls caller callee := by
  rw [next_of_ingest accepted, mem_callees_foldl_enter,
    ← Report.exists_flatten_iff]
  apply or_congr_right
  apply exists_congr
  intro record
  constructor
  · rintro ⟨member, -, called⟩
    exact ⟨member, called⟩
  · rintro ⟨member, called⟩
    exact ⟨member, Report.scope_of_mem_flatten member, called⟩

/-- A report is about one scope, so the ledgers of all others stay as they are. -/
theorem ledger_of_ingest
    (accepted : store.ingest report = (.ok summary, next))
    {scope : Scope} (other : scope ≠ report.scope) :
    next.ledger scope = store.ledger scope := by
  rw [next_of_ingest accepted]
  apply ledger_foldl_enter_of_ne
  intro record member same
  exact other (same.symm.trans (Report.scope_of_mem_flatten member))

end Ingested

/-! ## Members -/

/-- Relations of a sound store are about its features. -/
theorem Sound.mem_members_iff
    {store : Store} (sound : store.Sound) {scope : Scope}
    {relations : Relations}
    (built : store.relations scope = .ok relations) (feature : Feature) :
    feature ∈ relations.members ↔
      feature ∈ store.features ∧ feature.id.scope = scope :=
  Relations.mem_members_iff_of_distinct built sound.distinct feature

/-- Catalogs with the same features make relations with the same owners, whatever the ledgers. -/
theorem ownership_eq
    {store other : Store} {scope : Scope} {relations others : Relations}
    (features : other.features = store.features)
    (built : store.relations scope = .ok relations)
    (otherBuilt : other.relations scope = .ok others) :
    others.ownership = relations.ownership := by
  have owned := (Relations.builtFrom_of_build built).owned
  have otherOwned := (Relations.builtFrom_of_build otherBuilt).owned
  rw [(Relations.resolves_of_build built).members] at owned
  rw [(Relations.resolves_of_build otherBuilt).members, features,
    owned] at otherOwned
  exact (Except.ok.inj otherOwned).symm

/-! ## Dependencies -/

/-- What a report adds to the dependencies in a store. -/
structure AddsCalls (store : Store) (report : Report) (next : Store) : Prop where
  features : next.features = store.features
  /--
  A feature depends on what it did, and on the owners of what the report has
  its signatures call.
  -/
  within :
    ∃ relations grown,
      store.relations report.scope = .ok relations ∧
        next.relations report.scope = .ok grown ∧
          ∀ feature ∈ store.features,
            feature.id.scope = report.scope →
              ∀ target ∈ store.features,
                target.id.scope = report.scope →
                  (grown.DependsOn feature.id target.id ↔
                    relations.DependsOn feature.id target.id ∨
                      target.id ≠ feature.id ∧
                        ∃ caller ∈ feature.signatures,
                          ∃ callee,
                            report.Calls caller callee ∧
                              relations.ownership.owner? callee =
                                some target.id)
  /-- Nothing changes in other scopes. -/
  elsewhere :
    ∀ scope,
      scope ≠ report.scope → next.relations scope = store.relations scope

/--
A report that a store accepts adds the dependencies that its calls make, and
no other ones, whatever the store came about by.
-/
theorem ingest_adds_calls
    (operations : List Operation)
    {report : Report} {summary : IngestSummary} {next : Store}
    (accepted : (run operations).ingest report = (.ok summary, next)) :
    AddsCalls (run operations) report next := by
  have sound := sound_run operations
  have features := features_of_ingest accepted
  have nextSound : next.Sound := by
    have after := sound.ingest report
    rw [accepted] at after
    exact after
  refine { features := features, within := ?within, elsewhere := ?elsewhere }
  case within =>
    rcases exists_relations (run operations) report.scope with
      ⟨relations, built⟩
    rcases exists_relations next report.scope with ⟨grown, grownBuilt⟩
    refine ⟨relations, grown, built, grownBuilt, ?_⟩
    intro feature listed inside target targetListed targetInside
    have member := (sound.mem_members_iff built feature).mpr ⟨listed, inside⟩
    have targetMember :=
      (sound.mem_members_iff built target).mpr ⟨targetListed, targetInside⟩
    have grownMember :=
      (nextSound.mem_members_iff grownBuilt feature).mpr
        ⟨features ▸ listed, inside⟩
    have grownTarget :=
      (nextSound.mem_members_iff grownBuilt target).mpr
        ⟨features ▸ targetListed, targetInside⟩
    rw [Relations.dependsOn_iff_owner built member targetMember,
      Relations.dependsOn_iff_owner grownBuilt grownMember grownTarget,
      ownership_eq features built grownBuilt, ← and_or_left]
    apply and_congr_right
    intro apart
    simp only [mem_callees_of_ingest accepted, or_and_right, exists_or,
      and_or_left]
  case elsewhere =>
    intro scope other
    rw [Store.relations, Store.relations, features,
      ledger_of_ingest accepted other]

/-! ### A report with nested calls -/

/-- Three features; the second one calls the third. -/
def shop : List Operation :=
  [.upsert ⟨⟨"Shop", "", "Pay", "1"⟩, ["pay"]⟩,
    .upsert ⟨⟨"Shop", "", "Ship", "1"⟩, ["ship"]⟩,
    .upsert ⟨⟨"Shop", "", "Log", "1"⟩, ["log"]⟩,
    .record ⟨"Shop", "1", "ship", ["log"]⟩]

/--
A report in which the first one calls itself and the second, below a signature
that nobody owns.
-/
def nested : Report :=
  ⟨"Shop", "1",
    [.node "main"
      [.node "pay" [.node "pay" [], .node "ship" [.node "print" []]]]]⟩

/--
After this report the first feature depends on the second, which still depends
on the third; the third depends on none.
-/
theorem ingest_adds_calls_of_nested :
    ∃ summary next grown,
      (run shop).ingest nested = (.ok summary, next) ∧
        next.relations ⟨"Shop", "1"⟩ = .ok grown ∧
          grown.DependsOn ⟨"Shop", "", "Pay", "1"⟩
              ⟨"Shop", "", "Ship", "1"⟩ ∧
            grown.DependsOn ⟨"Shop", "", "Ship", "1"⟩
                ⟨"Shop", "", "Log", "1"⟩ ∧
              ¬grown.DependsOn ⟨"Shop", "", "Log", "1"⟩
                ⟨"Shop", "", "Pay", "1"⟩ := by
  have accepted :
      (run shop).ingest nested =
        (.ok ⟨"Shop", "1", 3⟩, ((run shop).ingest nested).2) := by
    decide
  rcases (ingest_adds_calls shop accepted).within with
    ⟨relations, grown, built, grownBuilt, grows⟩
  have listed :
      (run shop).features =
        [⟨⟨"Shop", "", "Pay", "1"⟩, ["pay"]⟩,
          ⟨⟨"Shop", "", "Ship", "1"⟩, ["ship"]⟩,
          ⟨⟨"Shop", "", "Log", "1"⟩, ["log"]⟩] := by
    decide
  have owned :
      ((run shop).relations nested.scope).map
          (·.ownership.owner? "ship") =
        .ok (some ⟨"Shop", "", "Ship", "1"⟩) := by
    decide
  have shipping :
      ((run shop).relations nested.scope).bind
          (·.directDependencies ⟨"Shop", "", "Ship", "1"⟩) =
        .ok [⟨⟨"Shop", "", "Log", "1"⟩, ["log"]⟩] := by
    decide
  have logging :
      ((run shop).relations nested.scope).bind
          (·.directDependencies ⟨"Shop", "", "Log", "1"⟩) =
        .ok [] := by
    decide
  rw [built] at owned shipping logging
  rw [listed] at grows
  refine ⟨_, _, grown, accepted, grownBuilt, ?_, ?_, ?_⟩
  · apply (grows _ (.head _) rfl _ (.tail _ (.head _)) rfl).mpr
    have called : nested.Calls "pay" "ship" := by
      simp [Report.Calls, Report.nodes, nested, Invocation.nodesAll,
        Invocation.nodes, Invocation.signature, Invocation.invocations]
    exact
      Or.inr
        ⟨by decide, "pay", .head _, "ship", called, Except.ok.inj owned⟩
  · apply
      (grows _ (.tail _ (.head _)) rfl _ (.tail _ (.tail _ (.head _)))
        rfl).mpr
    exact Or.inl ⟨_, shipping, .head _⟩
  · intro depends
    rcases
        (grows _ (.tail _ (.tail _ (.head _))) rfl _ (.head _) rfl).mp
          depends with
      ⟨features, answered, member⟩ |
        ⟨-, caller, declared, callee, called, -⟩
    · rw [Except.ok.inj (answered.symm.trans logging)] at member
      cases member
    · -- Nowhere in the report does the signature of the third feature stand.
      rw [List.mem_singleton.mp declared] at called
      simp [Report.Calls, Report.nodes, nested, Invocation.nodesAll,
        Invocation.nodes, Invocation.signature] at called

end FeatureAtlas.Store
