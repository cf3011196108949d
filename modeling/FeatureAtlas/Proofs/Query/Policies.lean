import FeatureAtlas.Proofs.Query.Snapshots

/-!
# Rejecting and listing agree

A query that rejects conflicts fails for that reason exactly if the listing of
conflicts is not empty, and then by the first one on it; where nothing is
listed it gives the answer that it gives where conflicts are only listed.  This
includes the failure to find a title, which is found out later than a conflict
is.
-/

namespace FeatureAtlas

open Conflict (refuse)

/-- The answer is that a signature has two owners. -/
def Ambiguous {α : Type} (answer : Except Error α) : Prop :=
  ∃ signature first second,
    answer = .error (.ambiguousOwner signature first second)

/--
How a query that rejects conflicts answers, given the conflicts in its extent
and the answer where they are only listed.
-/
structure Rejects {α : Type}
    (conflicts : List Conflict) (strict lenient : Except Error α) : Prop where
  fails : Ambiguous strict ↔ conflicts ≠ []
  /-- The first conflict is reported. -/
  first :
    ∀ conflict ∈ conflicts.head?,
      strict =
        .error
          (.ambiguousOwner conflict.signature conflict.owner conflict.ignored)
  otherwise : conflicts = [] → strict = lenient

/-! ## From relations to answers -/

section Answers

variable {α : Type} {snapshot : Snapshot} {scopes : List Relations}

/--
An answer that does not itself complain of owners is rejected for the
conflicts that it is refused for.
-/
theorem rejects_refuse
    {β : Type} (conflicts : List Conflict) {value : β}
    {answer : β → Except Error α} (clear : ¬Ambiguous (answer value)) :
    Rejects conflicts ((refuse conflicts value).bind answer)
      (answer value) := by
  cases conflicts with
  | nil =>
      exact
        { fails := by
            constructor
            · intro ambiguous
              exact absurd ambiguous clear
            · intro listed
              exact absurd rfl listed
          first := fun _ none => by cases none
          otherwise := fun _ => rfl }
  | cons conflict later =>
      exact
        { fails := by
            constructor
            · intro _ none
              cases none
            · intro _
              exact ⟨_, _, _, rfl⟩
          first := by
            intro other head
            cases head
            rfl
          otherwise := fun none => by cases none }

/-- An answer from the relations in a snapshot is rejected for their conflicts. -/
theorem rejects_of_relations
    {answer : List Relations → Except Error α}
    (clear : ∀ scopes, ¬Ambiguous (answer scopes))
    (built : snapshot.relations .firstWins = .ok scopes) :
    Rejects (scopes.flatMap (·.conflicts))
      ((snapshot.relations .reject).bind answer)
      ((snapshot.relations .firstWins).bind answer) := by
  rw [Snapshot.relations_reject, built]
  exact rejects_refuse _ (clear scopes)

theorem not_ambiguous_ok (value : α) :
    ¬Ambiguous (.ok value : Except Error α) := by
  rintro ⟨signature, first, second, failed⟩
  cases failed

/-- A question that finds the position of a feature first complains of no owners. -/
theorem not_ambiguous_bind_position
    (relations : Relations) (id : FeatureId) (value : Nat → α) :
    ¬Ambiguous ((relations.position id).bind fun position =>
      .ok (value position)) := by
  rintro ⟨signature, first, second, failed⟩
  rw [Relations.position] at failed
  cases found : relations.membership.positions.get? id with
  | none =>
      rw [found] at failed
      cases failed
  | some position =>
      rw [found] at failed
      cases failed

theorem not_ambiguous_answer
    {question : Relations → FeatureId → Except Error α}
    (clear : ∀ relations id, ¬Ambiguous (question relations id))
    (scope : Scope) (title : String) (scopes : List Relations) :
    ¬Ambiguous (Service.answer scope title question scopes) := by
  have missing :
      ¬Ambiguous
        (.error (.featureNotFound scope title) : Except Error α) := by
    rintro ⟨signature, first, second, failed⟩
    cases failed
  cases scopes with
  | nil => exact missing
  | cons relations others =>
      rw [Service.answer]
      cases relations.byTitle? title with
      | none => exact missing
      | some feature => exact clear relations feature.id

end Answers

/-! ## Queries on a store -/

namespace Store

/--
A question about a title is refused if its release has conflicts, whether or
not the title is there.
-/
theorem rejects_withFeature
    {α : Type} {question : Relations → FeatureId → Except Error α}
    (clear : ∀ relations id, ¬Ambiguous (question relations id))
    (store : Store) (home : Extent) (scope : Scope) (title : String)
    {scopes : List Relations}
    (built :
      (store.slice (.release scope.product scope.version)).relations
          .firstWins =
        .ok scopes) :
    Rejects (scopes.flatMap (·.conflicts))
      ((store.service ⟨home, .reject⟩).withFeature scope title question)
      ((store.service ⟨home, .firstWins⟩).withFeature scope title
        question) := by
  rw [withFeature_service, withFeature_service]
  exact rejects_of_relations (not_ambiguous_answer clear scope title) built

/-- Queries that reject conflicts agree with those that list them. -/
structure PoliciesAgree (store : Store) (home : Extent) : Prop where
  extents :
    ∀ extent,
      ∃ conflicts,
        (∀ policy,
            (store.service ⟨home, policy⟩).conflicts extent =
              .ok conflicts) ∧
          Rejects conflicts
              ((store.service ⟨home, .reject⟩).forest extent)
              ((store.service ⟨home, .firstWins⟩).forest extent) ∧
            Rejects conflicts
              ((store.service ⟨home, .reject⟩).cycles extent)
              ((store.service ⟨home, .firstWins⟩).cycles extent)
  /-- For a title the conflicts are those of the release, whether or not the title is there. -/
  titles :
    ∀ scope title,
      ∃ conflicts,
        (∀ policy,
            (store.service ⟨home, policy⟩).conflicts
                (.release scope.product scope.version) =
              .ok conflicts) ∧
          Rejects conflicts
              ((store.service ⟨home, .reject⟩).graph scope title)
              ((store.service ⟨home, .firstWins⟩).graph scope title) ∧
            Rejects conflicts
                ((store.service ⟨home, .reject⟩).dependencies scope title)
                ((store.service ⟨home, .firstWins⟩).dependencies scope
                  title) ∧
              Rejects conflicts
                ((store.service ⟨home, .reject⟩).dependents scope title)
                ((store.service ⟨home, .firstWins⟩).dependents scope title)

/--
Whatever a store holds, queries that reject conflicts fail by the first one
that is listed, and otherwise answer as if they did not reject any.
-/
theorem policies_agree (store : Store) (home : Extent) :
    store.PoliciesAgree home where
  extents := by
    intro extent
    rcases Snapshot.exists_relations_firstWins (store.slice extent) with
      ⟨scopes, built⟩
    refine ⟨scopes.flatMap (·.conflicts), ?_, ?_, ?_⟩
    · intro policy
      rw [conflicts_service, built]
      rfl
    · rw [forest_service, forest_service]
      exact rejects_of_relations (fun _ => not_ambiguous_ok _) built
    · rw [cycles_service, cycles_service]
      exact rejects_of_relations (fun _ => not_ambiguous_ok _) built
  titles := by
    intro scope title
    rcases
        Snapshot.exists_relations_firstWins
          (store.slice (.release scope.product scope.version)) with
      ⟨scopes, built⟩
    have refused {α : Type} (value : Relations → Nat → α) :=
      rejects_withFeature
        (fun relations id =>
          not_ambiguous_bind_position relations id (value relations))
        store home scope title built
    refine ⟨scopes.flatMap (·.conflicts), ?_, refused _, refused _, refused _⟩
    intro policy
    rw [conflicts_service, built]
    rfl

-- A conflict in a release is found before a title is missed there.
example :
    (Store.service
          ⟨[⟨⟨"Shop", "", "Pay", "1"⟩, ["pay"]⟩,
              ⟨⟨"Shop", "", "Ship", "1"⟩, ["ship", "pay"]⟩],
            .empty, .empty⟩
          ⟨.all, .reject⟩).graph ⟨"Shop", "1"⟩ "Return" =
      .error
        (.ambiguousOwner "pay" ⟨"Shop", "", "Pay", "1"⟩
          ⟨"Shop", "", "Ship", "1"⟩) := by
  decide

end Store

end FeatureAtlas
