import FeatureAtlas.Error
import FeatureAtlas.Ledger
import FeatureAtlas.Query.Backend
import FeatureAtlas.Report
import FeatureAtlas.Sorting

/-!
# The store

The store holds the features in the order of their first insertion and a
ledger for each scope. Everything that goes in is checked first; an operation
that fails leaves the store as it was. Operations give their answer together
with the store after them.
-/

namespace FeatureAtlas

/-- Features and recorded invocations. -/
structure Store where
  features : List Feature
  /-- The position of each feature in the list. -/
  positions : Table FeatureId Nat
  ledgers : Table Scope Ledger
deriving DecidableEq, Repr

/-- What the recording of a report comes to. -/
structure IngestSummary where
  product : String
  version : String
  /-- The number of records that the report was flattened to. -/
  entries : Nat
deriving DecidableEq, Repr

namespace Store

def empty : Store :=
  ⟨[], .empty, .empty⟩

/-! ## Unchecked changes -/

/--
Put a feature into the list, in place of the one with its identity; tells
whether there was one.
-/
def put (store : Store) (feature : Feature) : Bool × Store :=
  match store.positions.get? feature.id with
  | some position =>
    (true, { store with features := store.features.set position feature })
  | none =>
    (false,
      { store with
        features := store.features ++ [feature]
        positions := store.positions.insert feature.id store.features.length })

/-- Merge a record into the ledger of its scope. -/
def enter (store : Store) (record : InvocationRecord) : Store :=
  { store with
    ledgers := store.ledgers.alter record.scope fun ledger =>
      (ledger.getD .empty).record record.signature record.invoked }

/-! ## Operations -/

/-- Insert a feature or replace the one with its identity; tells whether one was replaced. -/
def upsert (store : Store) (feature : Feature) : Except Error Bool × Store :=
  match feature.defect? with
  | some defect => (.error (.invalidRecord defect), store)
  | none =>
    let (replaced, store) := store.put feature
    (.ok replaced, store)

def record (store : Store) (record : InvocationRecord) : Except Error Unit × Store :=
  match record.defect? with
  | some defect => (.error (.invalidRecord defect), store)
  | none => (.ok (), store.enter record)

/-- Record several invocation records, all of them or none. -/
def recordAll (store : Store) (records : List InvocationRecord) : Except Error Unit × Store :=
  match records.findSome? InvocationRecord.defect? with
  | some defect => (.error (.invalidRecord defect), store)
  | none => (.ok (), records.foldl enter store)

/-- Record the invocations of a report, all of them or none. -/
def ingest (store : Store) (report : Report) : Except Error IngestSummary × Store :=
  let records := report.flatten
  match store.recordAll records with
  | (.error error, store) => (.error error, store)
  | (.ok _, store) => (.ok ⟨report.product, report.version, records.length⟩, store)

/-! ## Contents -/

/-- The ledger of a scope; an unknown scope has an empty one. -/
def ledger (store : Store) (scope : Scope) : Ledger :=
  (store.ledgers.get? scope).getD .empty

/-- The features that pass optional filters, in order. -/
def matching (store : Store) (product? version? : Option String) : List Feature :=
  store.features.filter fun feature => Extent.passes product? version? feature.id

/-- The scopes of the features, in the order in which they first occur. -/
def scopes (store : Store) : List Scope :=
  FeatureId.scopes (store.features.map (·.id))

def featureCount (store : Store) : Nat :=
  store.features.length

/-- The number of signatures with an entry, over all scopes. -/
def invocationCount (store : Store) : Nat :=
  store.ledgers.entries.foldr (fun entry total => entry.2.size + total) 0

/-- Records are in order by product, version and signature. -/
def precedes (left right : InvocationRecord) : Bool :=
  ((compare left.product right.product).then <|
    (compare left.version right.version).then
      (compare left.signature right.signature)).isLE

/-- The entries of a ledger as records of a scope. -/
def recordsOf (entry : Scope × Ledger) : List InvocationRecord :=
  entry.2.entries.map fun (signature, invoked) =>
    ⟨entry.1.product, entry.1.version, signature, invoked⟩

/-- All ledger entries as records, sorted by product, version and signature. -/
def records (store : Store) : List InvocationRecord :=
  Sorting.sortBy precedes (store.ledgers.entries.flatMap recordsOf)

/-- The store as a backend of queries. -/
def backend (store : Store) : Backend where
  listFeatures product? version? := .ok (store.matching product? version?)
  invocations scope := .ok (store.ledger scope)

/-- Reading the ledger after a record was entered. -/
@[grind =]
theorem ledger_enter (store : Store) (record : InvocationRecord) (scope : Scope) :
    (store.enter record).ledger scope =
      if record.scope = scope then
        (store.ledger scope).record record.signature record.invoked
      else store.ledger scope := by
  unfold enter ledger
  rw [Table.get?_alter]
  by_cases same : record.scope = scope
  · simp [same]
  · simp [same]

end Store

end FeatureAtlas
