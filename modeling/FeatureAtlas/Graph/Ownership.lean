import FeatureAtlas.Error
import FeatureAtlas.Settings
import FeatureAtlas.Table

/-!
# Who owns a signature

The feature that declares a signature first owns it. A later declaration by
another feature is a conflict: it is listed once for the feature and the
signature, or it ends the search, as the policy says.
-/

namespace FeatureAtlas

/-- A signature that a feature declares although another one owns it. -/
structure Conflict where
  signature : String
  owner : FeatureId
  ignored : FeatureId
deriving DecidableEq, Repr

/-- A feature with its position among the features that are searched. -/
structure Owner where
  position : Nat
  id : FeatureId
deriving DecidableEq, Repr

/-- One signature in the declaration list of one feature. -/
structure Declaration where
  declarer : Owner
  signature : String
deriving DecidableEq, Repr

/-- The owners of signatures and the conflicts among the declarations. -/
structure Ownership where
  owners : Table String Owner
  conflicts : List Conflict
  /-- The pairs of signature and position that the conflicts stand for. -/
  reported : List (String × Nat)
deriving DecidableEq, Repr

namespace Ownership

/-- The declarations of features in order. -/
def declarations (features : List Feature) : List Declaration :=
  features.zipIdx.flatMap fun (feature, position) =>
    feature.signatures.map fun signature => ⟨⟨position, feature.id⟩, signature⟩

def empty : Ownership :=
  ⟨.empty, [], []⟩

/-- Take one more declaration into account. -/
def declare (policy : ConflictPolicy) (ownership : Ownership) (declaration : Declaration) :
    Except Error Ownership :=
  let signature := declaration.signature
  let declarer := declaration.declarer
  match ownership.owners.get? signature with
  | none => .ok { ownership with owners := ownership.owners.insert signature declarer }
  | some owner =>
    if owner.position = declarer.position ∨
        (signature, declarer.position) ∈ ownership.reported then
      .ok ownership
    else
      match policy with
      | .reject => .error (.ambiguousOwner signature owner.id declarer.id)
      | .firstWins =>
        .ok { ownership with
          conflicts := ownership.conflicts ++ [⟨signature, owner.id, declarer.id⟩]
          reported := (signature, declarer.position) :: ownership.reported }

/-- The owners of the signatures of features. -/
def build (policy : ConflictPolicy) (features : List Feature) : Except Error Ownership :=
  (declarations features).foldlM (declare policy) empty

def position? (ownership : Ownership) (signature : String) : Option Nat :=
  (ownership.owners.get? signature).map (·.position)

def owner? (ownership : Ownership) (signature : String) : Option FeatureId :=
  (ownership.owners.get? signature).map (·.id)

def size (ownership : Ownership) : Nat :=
  ownership.owners.size

end Ownership

end FeatureAtlas
