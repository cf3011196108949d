import FeatureAtlas.Distinct
import FeatureAtlas.Feature
import FeatureAtlas.Table

/-!
# The invocation ledger

The ledger of a scope tells for each recorded signature which signatures it
invokes, in recorded order and without repeats. Recording merges: what is
there stays in place and unseen callees go last.
-/

namespace FeatureAtlas

/-- One recorded row: a signature of a scope invokes other signatures, in order. -/
structure InvocationRecord where
  product : String
  version : String
  signature : String
  invoked : List String
deriving DecidableEq, Repr, Inhabited

namespace InvocationRecord

open Text (isBlank)

def scope (record : InvocationRecord) : Scope :=
  ⟨record.product, record.version⟩

/-- The first defect of a record: no part of it may be blank. -/
def defect? (record : InvocationRecord) : Option Defect :=
  if isBlank record.product then some .blankProduct
  else if isBlank record.version then some .blankVersion
  else if isBlank record.signature then some .blankSignature
  else if record.invoked.any isBlank then some (.blankInvocation record.signature)
  else none

def IsValid (record : InvocationRecord) : Prop :=
  record.defect? = none

instance (record : InvocationRecord) : Decidable record.IsValid :=
  inferInstanceAs (Decidable (record.defect? = none))

end InvocationRecord

/-- The callees of each recorded signature of one scope. -/
abbrev Ledger := Table String (List String)

namespace Ledger

/-- The callees of a signature; a signature without an entry has none. -/
def callees (ledger : Ledger) (signature : String) : List String :=
  (ledger.get? signature).getD []

/-- Merge callees into the entry of a signature, which is made if it is missing. -/
def record (ledger : Ledger) (signature : String) (invoked : List String) : Ledger :=
  ledger.alter signature fun present => Distinct.addAll (present.getD []) invoked

/-- Recording changes the callees of the signature and of no other one. -/
@[grind =]
theorem callees_record (ledger : Ledger) (signature other : String) (invoked : List String) :
    (ledger.record signature invoked).callees other =
      if signature = other then Distinct.addAll (ledger.callees signature) invoked
      else ledger.callees other := by
  unfold record callees
  rw [Table.get?_alter]
  split <;> rfl

/-- Recorded one after the other, items add what those of a signature invoke, in their order. -/
theorem callees_foldl_record
    {α : Type} (signature : α → String) (invoked : α → List String)
    (items : List α) (ledger : Ledger) (caller : String) :
    (items.foldl
          (fun ledger item => ledger.record (signature item) (invoked item))
          ledger).callees caller =
      Distinct.addAll (ledger.callees caller)
        ((items.filter fun item => signature item = caller).flatMap
          invoked) := by
  induction items generalizing ledger with
  | nil => rfl
  | cons item items induction =>
      rw [List.foldl_cons, induction, callees_record, List.filter_cons]
      by_cases same : signature item = caller
      · subst same
        rw [if_pos rfl, if_pos (decide_eq_true rfl), List.flatMap_cons,
          Distinct.addAll_append]
      · rw [if_neg same, if_neg (mt of_decide_eq_true same)]

theorem mem_callees_foldl_record
    {α : Type} (signature : α → String) (invoked : α → List String)
    (items : List α) (ledger : Ledger) (caller callee : String) :
    callee ∈
        (items.foldl
          (fun ledger item => ledger.record (signature item) (invoked item))
          ledger).callees caller ↔
      callee ∈ ledger.callees caller ∨
        ∃ item ∈ items, signature item = caller ∧ callee ∈ invoked item := by
  rw [callees_foldl_record, Distinct.mem_addAll, List.mem_flatMap]
  simp only [List.mem_filter, decide_eq_true_eq, and_assoc]

end Ledger

end FeatureAtlas
