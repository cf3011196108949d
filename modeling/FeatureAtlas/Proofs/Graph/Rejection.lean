import FeatureAtlas.Proofs.Graph.Relations
import FeatureAtlas.Query.Service

/-!
# Rejecting conflicts

Whether conflicts are rejected or only listed, the declarations are walked in
the same way up to the first conflict.  So rejecting comes to listing first,
and then failing with the head of the list if there is one.  This is so for
the owners of signatures, for the relations of a scope, and for all scopes of
a snapshot with their conflicts one behind the other.
-/

namespace FeatureAtlas

/-- What an answer becomes where conflicts are not accepted: the first of them is the error. -/
def Conflict.refuse {α : Type} : List Conflict → α → Except Error α
  | [], answer => .ok answer
  | conflict :: _, _ =>
    .error
      (.ambiguousOwner conflict.signature conflict.owner conflict.ignored)

open Conflict (refuse)

/-! ## Owners -/

namespace Ownership

/-- A walk without a conflict so far fails with the first one that the listing walk lists. -/
theorem foldlM_reject
    (later : List Declaration) {ownership : Ownership}
    (unconflicted : ownership.conflicts = []) :
    later.foldlM (declare .reject) ownership =
      (later.foldlM (declare .firstWins) ownership).bind fun final =>
        refuse final.conflicts final := by
  induction later generalizing ownership with
  | nil =>
      change Except.ok ownership = refuse ownership.conflicts ownership
      rw [unconflicted]
      rfl
  | cons declaration later induction =>
      rw [List.foldlM_cons, List.foldlM_cons]
      rcases declare_cases ownership declaration with
        ⟨next, same, declared⟩ | ⟨next, conflict, listed, accepted, rejected⟩
      · rw [declared, declared]
        exact induction (same.trans unconflicted)
      · rcases foldlM_firstWins later next with ⟨final, following, grown⟩
        rw [listed, unconflicted, List.nil_append] at grown
        rcases grown with ⟨others, all⟩
        rw [accepted, rejected]
        change _ = (later.foldlM (declare .firstWins) next).bind _
        rw [following]
        change _ = refuse final.conflicts final
        rw [← all]
        rfl

theorem build_reject (features : List Feature) :
    build .reject features =
      (build .firstWins features).bind fun ownership =>
        refuse ownership.conflicts ownership :=
  foldlM_reject (declarations features) rfl

end Ownership

/-! ## Relations -/

namespace Relations

/-- Where conflicts are rejected, the first one in a scope ends the search for its relations. -/
theorem build_reject
    (catalog : List Feature) (scope : Scope) (ledger : Ledger) :
    build .reject catalog scope ledger =
      (build .firstWins catalog scope ledger).bind fun relations =>
        refuse relations.conflicts relations := by
  dsimp only [build]
  rw [Ownership.build_reject]
  cases Ownership.build .firstWins (Membership.ofCatalog scope catalog).members with
  | error problem => rfl
  | ok ownership =>
      rcases ownership with ⟨owners, conflicts, reported⟩
      cases conflicts <;> rfl

end Relations

/-! ## Snapshots -/

namespace Snapshot

section Cons

variable (catalog : List Feature) (scope : Scope) (ledger : Ledger)
variable (ledgers : List (Scope × Ledger))

theorem relations_cons (policy : ConflictPolicy) :
    Snapshot.relations ⟨catalog, (scope, ledger) :: ledgers⟩ policy =
      (Relations.build policy catalog scope ledger).bind fun first =>
        (Snapshot.relations ⟨catalog, ledgers⟩ policy).bind fun others =>
          .ok (first :: others) :=
  List.mapM_cons

end Cons

theorem exists_relations_firstWins (snapshot : Snapshot) :
    ∃ scopes, snapshot.relations .firstWins = .ok scopes := by
  rcases snapshot with ⟨catalog, ledgers⟩
  induction ledgers with
  | nil => exact ⟨[], rfl⟩
  | cons entry ledgers induction =>
      rcases entry with ⟨scope, ledger⟩
      rcases Relations.exists_build_firstWins catalog scope ledger with
        ⟨first, built⟩
      rcases induction with ⟨others, rest⟩
      rw [relations_cons, built, Except.bind, rest]
      exact ⟨first :: others, rfl⟩

/--
Where conflicts are rejected, the first one in any scope of a snapshot ends
the search for all relations.
-/
theorem relations_reject (snapshot : Snapshot) :
    snapshot.relations .reject =
      (snapshot.relations .firstWins).bind fun scopes =>
        refuse (scopes.flatMap (·.conflicts)) scopes := by
  rcases snapshot with ⟨catalog, ledgers⟩
  induction ledgers with
  | nil => rfl
  | cons entry ledgers induction =>
      rcases entry with ⟨scope, ledger⟩
      rcases Relations.exists_build_firstWins catalog scope ledger with
        ⟨first, built⟩
      rcases exists_relations_firstWins ⟨catalog, ledgers⟩ with
        ⟨others, rest⟩
      rw [rest] at induction
      rw [relations_cons, relations_cons, Relations.build_reject, built,
        induction, rest]
      change
        (refuse first.conflicts first).bind _ =
          refuse (first.conflicts ++ others.flatMap (·.conflicts))
            (first :: others)
      cases first.conflicts with
      | nil =>
          change (refuse (others.flatMap (·.conflicts)) others).bind _ = _
          cases others.flatMap (·.conflicts) <;> rfl
      | cons conflict later => rfl

end Snapshot

end FeatureAtlas
