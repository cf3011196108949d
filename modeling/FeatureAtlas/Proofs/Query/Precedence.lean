import FeatureAtlas.Proofs.Graph.Conflicts
import FeatureAtlas.Proofs.Graph.Resolution
import FeatureAtlas.Proofs.Query.Fetches
import FeatureAtlas.Proofs.Query.Policies

/-!
# Which failure a query reports

A query can fail in four ways: the features cannot be listed, the ledger of one
of their scopes cannot be fetched, a signature has two owners, or a title is
missing.  Whatever the backends do, the earliest of these is reported.  All
fetches come first, in the order in which the scopes are first seen, so neither
a conflict nor a missing title hides a fetch that fails; and a conflict in a
scope that is considered hides that the title is missing there.
-/

namespace FeatureAtlas

/-! ## Queries -/

/-- What a service can be asked. -/
inductive Query
  | defaultForest
  | forest (extent : Extent)
  | cycles (extent : Extent)
  | conflicts (extent : Extent)
  | graph (scope : Scope) (title : String)
  | dependencies (scope : Scope) (title : String)
  | dependents (scope : Scope) (title : String)

namespace Query

abbrev Answer : Query → Type
  | .defaultForest => Forest
  | .forest _ => Forest
  | .cycles _ => List Cycle
  | .conflicts _ => List Conflict
  | .graph _ _ => FeatureGraph
  | .dependencies _ _ => List Feature
  | .dependents _ _ => List Feature

def ask (service : Service) : (query : Query) → Except Error query.Answer
  | .defaultForest => service.defaultForest
  | .forest extent => service.forest extent
  | .cycles extent => service.cycles extent
  | .conflicts extent => service.conflicts extent
  | .graph scope title => service.graph scope title
  | .dependencies scope title => service.dependencies scope title
  | .dependents scope title => service.dependents scope title

/-- The scope and the title that a query is about. -/
def title? : Query → Option (Scope × String)
  | .graph scope title => some (scope, title)
  | .dependencies scope title => some (scope, title)
  | .dependents scope title => some (scope, title)
  | _ => none

/-- The extent that is fetched for a query. -/
def extent (settings : Settings) : Query → Extent
  | .defaultForest => settings.extent
  | .forest extent => extent
  | .cycles extent => extent
  | .conflicts extent => extent
  | .graph scope _ => .release scope.product scope.version
  | .dependencies scope _ => .release scope.product scope.version
  | .dependents scope _ => .release scope.product scope.version

/-- Where conflicts are asked for they are listed, whatever the settings say. -/
def policy (settings : Settings) : Query → ConflictPolicy
  | .conflicts _ => .firstWins
  | _ => settings.policy

/-- Of all that is fetched, a query about a title considers the first scope only. -/
def considered {α : Type} (query : Query) (scopes : List α) : List α :=
  if query.title?.isSome then scopes.take 1 else scopes

/-- The answer to a query that no feature is fetched for. -/
def bare : (query : Query) → Except Error query.Answer
  | .defaultForest => .ok .empty
  | .forest _ => .ok .empty
  | .cycles _ => .ok []
  | .conflicts _ => .ok []
  | .graph scope title => .error (.featureNotFound scope title)
  | .dependencies scope title => .error (.featureNotFound scope title)
  | .dependents scope title => .error (.featureNotFound scope title)

/-- The answer to a query from the relations of the scopes that it considers. -/
def answerOf : (query : Query) → List Relations → Except Error query.Answer
  | .defaultForest => fun scopes => .ok (.ofScopes scopes)
  | .forest _ => fun scopes => .ok (.ofScopes scopes)
  | .cycles _ => fun scopes => .ok (scopes.flatMap (·.cycles))
  | .conflicts _ => fun scopes => .ok (scopes.flatMap (·.conflicts))
  | .graph scope title => Service.answer scope title Relations.graph
  | .dependencies scope title =>
    Service.answer scope title Relations.directDependencies
  | .dependents scope title =>
    Service.answer scope title Relations.directDependents

end Query

/-! ## Contested scopes -/

/-- Two features of a scope declare the same signature, and the policy does not accept this. -/
def Contested
    (policy : ConflictPolicy) (catalog : List Feature) (scope : Scope) : Prop :=
  policy = .reject ∧
    ∃ left ∈ firstCopies scope catalog, ∃ right ∈ firstCopies scope catalog,
      left.id ≠ right.id ∧
        ∃ signature ∈ left.signatures, signature ∈ right.signatures

/-- Conflicts are listed in a scope if two of its features declare the same signature. -/
theorem Relations.conflicts_ne_nil_iff
    {catalog : List Feature} {scope : Scope} {ledger : Ledger}
    {relations : Relations}
    (built : build .firstWins catalog scope ledger = .ok relations) :
    relations.conflicts ≠ [] ↔ Contested .reject catalog scope := by
  have owned := (builtFrom_of_build built).owned
  have resolves := resolves_of_build built
  rw [conflicts, Ownership.conflicts_ne_nil_iff owned, Contested,
    ← resolves.members, and_iff_right rfl]
  constructor
  · rintro ⟨signature, first, second, before, firstIn, secondIn⟩
    obtain ⟨left, leftAt, leftDeclares⟩ := mem_declaredAt_iff.mp firstIn
    obtain ⟨right, rightAt, rightDeclares⟩ := mem_declaredAt_iff.mp secondIn
    refine
      ⟨left, List.mem_of_getElem? leftAt, right, List.mem_of_getElem? rightAt,
        ?_, signature, leftDeclares, rightDeclares⟩
    intro same
    have inside := (List.getElem?_eq_some_iff.mp leftAt).1
    refine
      Nat.ne_of_lt before
        ((List.getElem?_inj (by simpa using inside) resolves.distinct).mp ?_)
    rw [List.getElem?_map, List.getElem?_map, leftAt, rightAt,
      Option.map_some, Option.map_some, same]
  · rintro ⟨left, leftIn, right, rightIn, apart, signature, leftDeclares,
      rightDeclares⟩
    obtain ⟨first, leftAt⟩ := List.mem_iff_getElem?.mp leftIn
    obtain ⟨second, rightAt⟩ := List.mem_iff_getElem?.mp rightIn
    have firstIn := mem_declaredAt_iff.mpr ⟨left, leftAt, leftDeclares⟩
    have secondIn := mem_declaredAt_iff.mpr ⟨right, rightAt, rightDeclares⟩
    rcases Nat.lt_trichotomy first second with before | same | behind
    · exact ⟨signature, first, second, before, firstIn, secondIn⟩
    · rw [same, rightAt, Option.some.injEq] at leftAt
      exact absurd (congrArg Feature.id leftAt.symm) apart
    · exact ⟨signature, second, first, behind, secondIn, firstIn⟩

namespace Query

/-! ## Answers -/

theorem considered_map
    {α β : Type} (query : Query) (f : α → β) (elements : List α) :
    query.considered (elements.map f) =
      (query.considered elements).map f := by
  rw [considered, considered]
  split
  · exact List.map_take.symm
  · rfl

theorem not_ambiguous_answerOf (query : Query) (scopes : List Relations) :
    ¬Ambiguous (query.answerOf scopes) := by
  have clear {α : Type} (value : Relations → Nat → α) :=
    not_ambiguous_answer fun relations id =>
      not_ambiguous_bind_position relations id (value relations)
  cases query with
  | defaultForest => exact not_ambiguous_ok _
  | forest extent => exact not_ambiguous_ok _
  | cycles extent => exact not_ambiguous_ok _
  | conflicts extent => exact not_ambiguous_ok _
  | graph scope title => exact clear _ scope title scopes
  | dependencies scope title => exact clear _ scope title scopes
  | dependents scope title => exact clear _ scope title scopes

end Query

/-- A question about a title is answered from the first relations of a snapshot. -/
theorem withFeature_eq_bind
    {α : Type} (service : Service) (scope : Scope) (title : String)
    (question : Relations → FeatureId → Except Error α) :
    service.withFeature scope title question =
      (service.snapshot (.release scope.product scope.version)).bind
        fun snapshot =>
          (Snapshot.relations ⟨snapshot.catalog, snapshot.ledgers.take 1⟩
              service.settings.policy).bind
            (Service.answer scope title question) := by
  rw [Service.withFeature]
  cases service.snapshot (.release scope.product scope.version) with
  | error error => rfl
  | ok snapshot =>
      rcases snapshot with ⟨catalog, ledgers⟩
      cases ledgers with
      | nil => rfl
      | cons entry later =>
          rcases entry with ⟨first, ledger⟩
          show _ = Except.bind (Snapshot.relations ⟨catalog, [_]⟩ _) _
          rw [Snapshot.relations_cons]
          show (Relations.build _ catalog first ledger).bind _ = _
          cases Relations.build service.settings.policy catalog first ledger
          · rfl
          · rfl

/-- Every query is answered from the relations of the scopes that it considers. -/
theorem ask_eq (service : Service) (query : Query) :
    query.ask service =
      (service.snapshot (query.extent service.settings)).bind
        fun snapshot =>
          (Snapshot.relations
              ⟨snapshot.catalog, query.considered snapshot.ledgers⟩
              (query.policy service.settings)).bind
            query.answerOf := by
  cases query with
  | defaultForest => rfl
  | forest extent => rfl
  | cycles extent => rfl
  | conflicts extent => rfl
  | graph scope title => exact withFeature_eq_bind service scope title _
  | dependencies scope title => exact withFeature_eq_bind service scope title _
  | dependents scope title => exact withFeature_eq_bind service scope title _

/-! ## Titles -/

/-- No feature of the scopes has the title. -/
def Untitled
    (catalog : List Feature) (scopes : List Scope) (title : String) : Prop :=
  ∀ scope ∈ scopes, ∀ feature ∈ catalog,
    feature.id.scope = scope → feature.id.title ≠ title

/--
What comes of an answer from the relations of scopes: a title is missing there,
or there is an answer, and then the title that was asked about is not missing.
-/
inductive Replies {α : Type}
    (catalog : List Feature) (title? : Option (Scope × String))
    (scopes : List Scope) (reply : Except Error α) : Prop
  | missing (scope : Scope) (title : String)
      (about : title? = some (scope, title))
      (lacking : Untitled catalog scopes title)
      (fails : reply = .error (.featureNotFound scope title))
  | answered (answer : α)
      (present :
        ∀ scope title,
          title? = some (scope, title) → ¬Untitled catalog scopes title)
      (given : reply = .ok answer)

/-- The only failure is that a title is missing. -/
theorem Replies.exists_missing
    {α : Type} {catalog : List Feature} {title? : Option (Scope × String)}
    {scopes : List Scope} {reply : Except Error α} {error : Error}
    (replies : Replies catalog title? scopes reply)
    (failed : reply = .error error) :
    ∃ scope title, error = .featureNotFound scope title := by
  cases replies with
  | missing scope title about lacking fails =>
      rw [fails, Except.error.injEq] at failed
      exact ⟨scope, title, failed.symm⟩
  | answered answer present given =>
      rw [given] at failed
      cases failed

section Built

variable {catalog : List Feature} {relationsAt : Scope → Relations}

theorem Relations.byTitle?_eq_none_iff
    {scope : Scope} {ledger : Ledger} {relations : Relations}
    (built : build .firstWins catalog scope ledger = .ok relations)
    (title : String) :
    relations.byTitle? title = none ↔ Untitled catalog [scope] title := by
  have copies := find?_firstCopies scope catalog fun id => id.title = title
  simp only [decide_eq_true_eq] at copies
  rw [byTitle?, (resolves_of_build built).members, copies,
    List.find?_eq_none, Untitled, List.forall_mem_singleton]
  simp only [decide_eq_true_eq, not_and]

/-- A question about a title is answered unless the scope that it considers lacks the title. -/
theorem Service.replies_answer
    {α : Type} {question : Relations → FeatureId → Except Error α}
    (built :
      ∀ scope,
        ∃ ledger,
          Relations.build .firstWins catalog scope ledger =
            .ok (relationsAt scope))
    (answers :
      ∀ {relations : Relations}, relations.Lawful →
        ∀ feature ∈ relations.members,
          ∃ answer, question relations feature.id = .ok answer)
    (scope : Scope) (title : String) (seen : List Scope) :
    Replies catalog (some (scope, title)) (seen.take 1)
      (Service.answer scope title question
        ((seen.take 1).map relationsAt)) := by
  cases seen with
  | nil =>
      refine .missing scope title rfl ?_ rfl
      intro other none
      cases none
  | cons first later =>
      obtain ⟨ledger, firstBuilt⟩ := built first
      have lacking_iff := Relations.byTitle?_eq_none_iff firstBuilt title
      rw [List.take_succ_cons, List.take_zero, List.map_singleton,
        Service.answer]
      cases titled : (relationsAt first).byTitle? title with
      | none => exact .missing scope title rfl (lacking_iff.mp titled) rfl
      | some feature =>
          obtain ⟨answer, given⟩ :=
            answers (Relations.lawful_of_build firstBuilt) feature
              (List.mem_of_find?_eq_some titled)
          refine .answered answer ?_ given
          rintro home name ⟨⟩ lacking
          rw [lacking_iff.mpr lacking] at titled
          cases titled

/-- A query fails only if it is about a title that the scope it considers lacks. -/
theorem Query.replies_answerOf
    (built :
      ∀ scope,
        ∃ ledger,
          Relations.build .firstWins catalog scope ledger =
            .ok (relationsAt scope))
    (query : Query) (seen : List Scope) :
    Replies catalog query.title? (query.considered seen)
      (query.answerOf ((query.considered seen).map relationsAt)) := by
  cases query with
  | defaultForest => exact .answered _ (fun _ _ => nofun) rfl
  | forest extent => exact .answered _ (fun _ _ => nofun) rfl
  | cycles extent => exact .answered _ (fun _ _ => nofun) rfl
  | conflicts extent => exact .answered _ (fun _ _ => nofun) rfl
  | graph scope title =>
      exact
        Service.replies_answer built
          (fun lawful _ => lawful.exists_answer _) scope title seen
  | dependencies scope title =>
      exact
        Service.replies_answer built
          (fun lawful _ => lawful.exists_answer _) scope title seen
  | dependents scope title =>
      exact
        Service.replies_answer built
          (fun lawful _ => lawful.exists_answer _) scope title seen

end Built

/-! ## Outcomes -/

/--
Once all fetches have succeeded, a query fails for a contested scope among
those that it considers, or else is answered from their relations.
-/
theorem Query.ask_of_fetches
    {service : Service} {query : Query} {catalog : List Feature}
    (fetches :
      Fetches service.backend (query.extent service.settings)
        catalog) :
    ∃ relationsAt : Scope → Relations,
      (∀ scope,
        ∃ ledger,
          Relations.build .firstWins catalog scope ledger =
            .ok (relationsAt scope)) ∧
        ((∃ scope ∈ query.considered (scopesSeen catalog),
              Contested (query.policy service.settings) catalog
                scope) ∧
            Ambiguous (query.ask service) ∨
          (∀ scope ∈ query.considered (scopesSeen catalog),
              ¬Contested (query.policy service.settings) catalog
                scope) ∧
            query.ask service =
              query.answerOf
                ((query.considered (scopesSeen catalog)).map
                  relationsAt)) := by
  obtain ⟨ledgerAt, taken⟩ := snapshot_of_fetches fetches
  choose relationsAt built using fun scope =>
    Relations.exists_build_firstWins catalog scope (ledgerAt scope)
  refine ⟨relationsAt, fun scope => ⟨_, built scope⟩, ?_⟩
  generalize sought : query.considered (scopesSeen catalog) = scopes
  have asked :
      query.ask service =
        (Snapshot.relations
            ⟨catalog, scopes.map fun scope => (scope, ledgerAt scope)⟩
            (query.policy service.settings)).bind
          query.answerOf := by
    rw [ask_eq, taken, ← sought, ← considered_map]
    rfl
  have found :
      Snapshot.relations
          ⟨catalog, scopes.map fun scope => (scope, ledgerAt scope)⟩
          .firstWins =
        .ok (scopes.map relationsAt) := by
    rw [Snapshot.relations, List.mapM_map]
    exact mapM_eq_ok_map fun scope _ => built scope
  rw [asked]
  cases query.policy service.settings with
  | firstWins =>
      refine Or.inr ⟨fun scope _ contested => (nomatch contested.1), ?_⟩
      rw [found]
      rfl
  | reject =>
      have rejects :=
        rejects_of_relations (not_ambiguous_answerOf query) found
      have listed :
          (scopes.map relationsAt).flatMap (·.conflicts) ≠ [] ↔
            ∃ scope ∈ scopes, Contested .reject catalog scope := by
        simp only [ne_eq, List.flatMap_eq_nil_iff, List.forall_mem_map,
          not_forall, exists_prop]
        simp only [← Relations.conflicts_ne_nil_iff (built _), ne_eq]
      rw [rejects.fails, listed]
      by_cases contested :
          ∃ scope ∈ scopes, Contested .reject catalog scope
      · exact Or.inl ⟨contested, contested⟩
      · refine Or.inr ⟨?_, ?_⟩
        · simpa using contested
        · rw [rejects.otherwise (not_not.mp (mt listed.mp contested)), found]
          rfl

/-- What a query comes to once all fetches have succeeded. -/
inductive Query.Outcome
    (query : Query) (service : Service) (catalog : List Feature) : Prop
  | ambiguous (scope : Scope)
      (seen : scope ∈ query.considered (scopesSeen catalog))
      (contested :
        Contested (query.policy service.settings) catalog scope)
      (fails : Ambiguous (query.ask service))
  | settled
      (clear :
        ∀ scope ∈ query.considered (scopesSeen catalog),
          ¬Contested (query.policy service.settings) catalog scope)
      (replies :
        Replies catalog query.title? (query.considered (scopesSeen catalog))
          (query.ask service))

section Fetched

variable {service : Service} {query : Query} {catalog : List Feature}

theorem outcome_of_fetches
    (fetches :
      Fetches service.backend (query.extent service.settings) catalog) :
    query.Outcome service catalog := by
  obtain
    ⟨relationsAt, built, ⟨⟨scope, seen, contested⟩, fails⟩ | ⟨clear, asked⟩⟩ :=
    Query.ask_of_fetches fetches
  · exact .ambiguous scope seen contested fails
  · refine .settled clear ?_
    rw [asked]
    exact query.replies_answerOf built (scopesSeen catalog)

/-- A conflict is reported if a scope that is considered is contested. -/
theorem ambiguous_ask_iff
    (fetches :
      Fetches service.backend (query.extent service.settings) catalog) :
    Ambiguous (query.ask service) ↔
      ∃ scope ∈ query.considered (scopesSeen catalog),
        Contested (query.policy service.settings) catalog scope := by
  cases outcome_of_fetches fetches with
  | ambiguous scope seen contested fails =>
      exact iff_of_true fails ⟨scope, seen, contested⟩
  | settled clear replies =>
      refine iff_of_false ?_ (by simpa using clear)
      rintro ⟨signature, first, second, failed⟩
      obtain ⟨scope, title, other⟩ := replies.exists_missing failed
      cases other

/-- A title is reported if no scope that is considered is contested or has it. -/
theorem ask_eq_featureNotFound_iff
    (fetches :
      Fetches service.backend (query.extent service.settings) catalog)
    (scope : Scope) (title : String) :
    query.ask service = .error (.featureNotFound scope title) ↔
      query.title? = some (scope, title) ∧
        Untitled catalog (query.considered (scopesSeen catalog)) title ∧
          ∀ other ∈ query.considered (scopesSeen catalog),
            ¬Contested (query.policy service.settings) catalog other := by
  cases outcome_of_fetches fetches with
  | ambiguous other seen contested fails =>
      refine iff_of_false ?_ fun outcome => outcome.2.2 other seen contested
      obtain ⟨signature, first, second, failed⟩ := fails
      rw [failed]
      simp
  | settled clear replies =>
      cases replies with
      | missing home name about lacking fails =>
          rw [fails, about]
          constructor
          · rintro ⟨⟩
            exact ⟨rfl, lacking, clear⟩
          · rintro ⟨⟨⟩, -, -⟩
            rfl
      | answered answer present given =>
          rw [given]
          refine iff_of_false (by simp) ?_
          rintro ⟨about, lacking, -⟩
          exact present scope title about lacking

/-- Without features there are no relations to answer from. -/
theorem ask_of_no_features
    (fetches :
      Fetches service.backend (query.extent service.settings) []) :
    query.ask service = query.bare := by
  have considered : query.considered (scopesSeen []) = [] := by
    rw [scopesSeen, Query.considered]
    split <;> rfl
  obtain ⟨relationsAt, -, ⟨⟨scope, seen, -⟩, -⟩ | ⟨-, asked⟩⟩ :=
    Query.ask_of_fetches fetches
  · rw [considered] at seen
    cases seen
  · rw [asked, considered]
    cases query <;> rfl

end Fetched

/-- In which order a query fails, whatever the backends and the settings are. -/
structure FailsInOrder (service : Service) (query : Query) : Prop where
  /-- The first fetch that fails is reported. -/
  fetch :
    ∀ error,
      FetchFails service.backend (query.extent service.settings) error →
        query.ask service = .error error
  /-- Ledgers of scopes that are not seen do not matter. -/
  unseen :
    ∀ other : Backend,
      (∀ product? version?,
        other.listFeatures product? version? =
          service.backend.listFeatures product? version?) →
        (∀ catalog,
          service.backend.listFeatures
                (query.extent service.settings).product?
                (query.extent service.settings).version? =
              .ok catalog →
            ∀ scope ∈ scopesSeen catalog,
              other.invocations scope =
                service.backend.invocations scope) →
          query.ask ⟨other, service.settings⟩ = query.ask service
  /-- Where no feature is listed, no ledger matters. -/
  empty :
    service.backend.listFeatures (query.extent service.settings).product?
          (query.extent service.settings).version? =
        .ok [] →
      ∀ invocations,
        query.ask
            ⟨⟨service.backend.listFeatures, invocations⟩,
              service.settings⟩ =
          query.bare
  ambiguous :
    ∀ catalog,
      Fetches service.backend (query.extent service.settings) catalog →
        (Ambiguous (query.ask service) ↔
          ∃ scope ∈ query.considered (scopesSeen catalog),
            Contested (query.policy service.settings) catalog scope)
  missing :
    ∀ catalog,
      Fetches service.backend (query.extent service.settings) catalog →
        ∀ scope title,
          query.ask service = .error (.featureNotFound scope title) ↔
            query.title? = some (scope, title) ∧
              Untitled catalog (query.considered (scopesSeen catalog))
                  title ∧
                ∀ other ∈ query.considered (scopesSeen catalog),
                  ¬Contested (query.policy service.settings) catalog other
  /-- There is no other way to fail. -/
  otherwise :
    ∀ error,
      query.ask service = .error error →
        FetchFails service.backend (query.extent service.settings) error ∨
          (∃ catalog,
            Fetches service.backend (query.extent service.settings)
              catalog) ∧
            (Ambiguous (query.ask service) ∨
              ∃ scope title, error = .featureNotFound scope title)

/--
Every query reports the earliest failure: a listing, the ledger of the first
scope for which it fails, a contested signature, a missing title.
-/
theorem queries_fail_in_order (service : Service) (query : Query) :
    FailsInOrder service query where
  fetch := by
    intro error fails
    rw [ask_eq, snapshot_of_fetchFails fails]
    rfl
  unseen := by
    intro other listings ledgers
    rw [ask_eq, ask_eq]
    congr 1
    exact snapshot_congr (listings _ _) ledgers
  empty := by
    intro listed invocations
    let other : Service :=
      ⟨⟨service.backend.listFeatures, invocations⟩, service.settings⟩
    have fetches :
        Fetches other.backend (query.extent other.settings) [] :=
      ⟨listed, fun scope none => by cases none⟩
    exact ask_of_no_features fetches
  ambiguous _ := ambiguous_ask_iff
  missing _ := ask_eq_featureNotFound_iff
  otherwise := by
    intro error failed
    rcases fetches_or_fetchFails service.backend
        (query.extent service.settings) with
      ⟨catalog, fetches⟩ | ⟨first, fails⟩
    · refine Or.inr ⟨⟨catalog, fetches⟩, ?_⟩
      cases outcome_of_fetches fetches with
      | ambiguous scope seen contested fails => exact Or.inl fails
      | settled clear replies =>
          exact Or.inr (replies.exists_missing failed)
    · rw [ask_eq, snapshot_of_fetchFails fails] at failed
      cases failed
      exact Or.inl fails

-- The ledger of the second release fails, and this hides a conflict in the first.
example :
    Service.cycles
        ⟨⟨fun _ _ =>
              .ok
                [⟨⟨"Shop", "", "Pay", "1"⟩, ["pay"]⟩,
                  ⟨⟨"Shop", "", "Ship", "2"⟩, ["ship"]⟩,
                  ⟨⟨"Shop", "", "Ship", "1"⟩, ["pay"]⟩],
            fun scope =>
              if scope.version = "2" then
                .error (.file (.reported "ledger offline"))
              else .ok .empty⟩,
          ⟨.all, .reject⟩⟩ .all =
      .error (.file (.reported "ledger offline")) := by
  rfl

end FeatureAtlas
