import FeatureAtlas.Proofs.Store.Log
import FeatureAtlas.Proofs.Store.SaveLoad
import FeatureAtlas.Proofs.Text.ByteOrder

/-!
# Canonical files

The exported records ascend strictly by the bytes of product, version and
signature, so there is only one way to list the entries of a store.  In
whatever order the ledgers and their entries are gone through, the same
records come out, and stores that say the same are saved as the same files.
-/

namespace FeatureAtlas.Store

/-! ## The order of the bytes -/

/-- The bytes that a record is ordered by. -/
def orderKey (record : InvocationRecord) : List Bytes :=
  [Utf8.ofText record.product, Utf8.ofText record.version,
    Utf8.ofText record.signature]

theorem ofText_lt_of_compare {left right : String} (before : compare left right = .lt) :
    Utf8.ofText left < Utf8.ofText right :=
  Utf8.ofText_lt_of_lt (compareOfLessAndEq_eq_lt.mp before)

/-- Records that are compared as less have the lesser bytes. -/
theorem orderKey_lt
    {left right : InvocationRecord}
    (before : compareRecords left right = .lt) :
    orderKey left < orderKey right := by
  simp only [compareRecords, compareLex, compareOn, Ordering.then_eq_lt,
    Std.LawfulEqCmp.compare_eq_iff_eq] at before
  simp only [orderKey, List.cons_lt_cons_iff]
  rcases before with product | ⟨product, version | ⟨version, signature⟩⟩
  · exact Or.inl (ofText_lt_of_compare product)
  · rw [product]
    exact Or.inr ⟨rfl, Or.inl (ofText_lt_of_compare version)⟩
  · rw [product, version]
    exact
      Or.inr
        ⟨rfl, Or.inr ⟨rfl, Or.inl (ofText_lt_of_compare signature)⟩⟩

section Exported

variable {store : Store}

theorem pairwise_orderKey (sound : store.Sound) :
    store.records.Pairwise fun left right =>
      orderKey left < orderKey right := by
  refine
    ((pairwise_records store).and (nodup_records sound)).imp_of_mem ?_
  rintro left right leftIn rightIn ⟨before, differ⟩
  rw [precedes_eq] at before
  cases compared : compareRecords left right with
  | lt => exact orderKey_lt compared
  | gt =>
      rw [compared] at before
      cases before
  | eq =>
      have swapped : compareRecords right left = .eq :=
        Std.OrientedCmp.eq_symm compared
      have behind : precedes right left = true := by
        rw [precedes_eq, swapped]
        rfl
      have ahead : precedes left right = true := by
        rw [precedes_eq, compared]
        rfl
      obtain ⟨scope, signature⟩ := key_eq_of_precedes ahead behind
      exact
        absurd (eq_of_mem_records sound leftIn rightIn scope signature)
          differ

/-! ## Going through the ledgers -/

/-- The same scope with the same entries, which may be listed in another order. -/
def Shuffled (visited entry : Scope × Ledger) : Prop :=
  visited.1 = entry.1 ∧ visited.2.entries.Perm entry.2.entries

/--
A way to go through ledgers: the scopes in any order, and the entries of each
scope in any order.
-/
def Visits (order : List (Scope × Ledger)) (ledgers : Table Scope Ledger) : Prop :=
  ∃ scopes,
    scopes.Perm ledgers.entries ∧ List.Forall₂ Shuffled order scopes

theorem perm_recordsOf
    {order scopes : List (Scope × Ledger)}
    (inside : List.Forall₂ Shuffled order scopes) :
    (order.flatMap recordsOf).Perm (scopes.flatMap recordsOf) := by
  induction inside with
  | nil => exact List.Perm.refl _
  | cons same _ induction =>
      rw [List.flatMap_cons, List.flatMap_cons]
      refine List.Perm.append ?_ induction
      rw [recordsOf, recordsOf, same.1]
      exact same.2.map _

/-- The order in which the ledgers are gone through does not show. -/
theorem sortBy_of_visits
    (sound : store.Sound) {order : List (Scope × Ledger)}
    (visits : Visits order store.ledgers) :
    Sorting.sortBy precedes (order.flatMap recordsOf) = store.records := by
  rcases visits with ⟨scopes, shuffled, inside⟩
  have listed :
      (order.flatMap recordsOf).Perm
        (store.ledgers.entries.flatMap recordsOf) :=
    (perm_recordsOf inside).trans (shuffled.flatMap_right recordsOf)
  refine
    Sorting.sortBy_eq_of_perm precedes_total precedes_trans
      (pairwise_records store) ?_
      (listed.trans (Sorting.sortBy_perm _ _).symm)
  intro left leftIn right rightIn before behind
  obtain ⟨scope, signature⟩ := key_eq_of_precedes before behind
  exact eq_of_mem_records sound leftIn rightIn scope signature

end Exported

/-! ## Canonical files -/

/-- What is exported depends on what the ledgers say and on nothing else. -/
structure ExportsInOrder (store : Store) : Prop where
  ascending :
    store.records.Pairwise fun left right => orderKey left < orderKey right
  /-- Each entry of a ledger is exported, and nothing else is. -/
  entries :
    ∀ record,
      record ∈ store.records ↔
        (store.ledger record.scope).get? record.signature =
          some record.invoked
  once : store.records.Nodup
  orderless :
    ∀ order,
      Visits order store.ledgers →
        Sorting.sortBy precedes (order.flatMap recordsOf) = store.records

/-- Two stores are saved as the same bytes, on the same disk or on different ones. -/
structure SavedAlike (store other : Store) : Prop where
  saves : ∀ disk paths, store.save disk paths = other.save disk paths
  /-- Whatever was on the disks before and wherever the files are, their bytes are the same. -/
  files :
    ∀ disk paths saved disk' paths' saved',
      store.save disk paths = (.ok (), saved) →
        other.save disk' paths' = (.ok (), saved') →
          paths.Separate disk → paths'.Separate disk' →
            ∃ features records,
              saved.read paths.features = .ok features ∧
                saved'.read paths'.features = .ok features ∧
                  saved.read paths.invocations = .ok records ∧
                    saved'.read paths'.invocations = .ok records

theorem Sound.exportsInOrder
    {store : Store} (sound : store.Sound) : store.ExportsInOrder where
  ascending := pairwise_orderKey sound
  entries := mem_records_iff sound
  once := nodup_records sound
  orderless := fun _ visits => sortBy_of_visits sound visits

theorem Agrees.savedAlike
    {store other : Store} (agrees : store.Agrees other)
    (sound : store.Sound) (otherSound : other.Sound) :
    store.SavedAlike other where
  saves := by
    intro disk paths
    have records := records_eq_of_ledgers sound otherSound agrees.ledgers
    rw [save, save, featureLines, featureLines, recordLines, recordLines,
      agrees.features, records]
  files := by
    intro disk paths saved disk' paths' saved' done done' separate separate'
    rcases texts_of_save done separate with ⟨features, records⟩
    rcases texts_of_save done' separate' with ⟨features', records'⟩
    rcases agrees.texts_eq sound otherSound with ⟨first, second⟩
    rw [← first] at features'
    rw [← second] at records'
    exact ⟨_, _, features, features', records, records'⟩

/--
Whatever operations a store comes about by, its entries are exported once each
and ascending, and a store that says the same is saved as the same bytes.
-/
theorem run_saved_canonically
    (operations others : List Operation)
    (agrees : (run operations).Agrees (run others)) :
    (run operations).ExportsInOrder ∧
      (run operations).SavedAlike (run others) :=
  ⟨(sound_run operations).exportsInOrder,
    agrees.savedAlike (sound_run operations) (sound_run others)⟩

/-! ### Two logs for the same entries -/

/-- The record of a later release stands before that of an earlier one. -/
def laterFirst : List Operation :=
  [.upsert ⟨⟨"Shop", "", "Pay", "1"⟩, ["pay"]⟩] ++
    .record ⟨"Shop", "2", "pay", []⟩ ::
      .record ⟨"Shop", "1", "zoll", ["pay"]⟩ ::
        [.record ⟨"Shop", "1", "öffnen", ["zoll", "pay"]⟩]

/-- The same operations with the records of the two releases swapped. -/
def earlierFirst : List Operation :=
  [.upsert ⟨⟨"Shop", "", "Pay", "1"⟩, ["pay"]⟩] ++
    .record ⟨"Shop", "1", "zoll", ["pay"]⟩ ::
      .record ⟨"Shop", "2", "pay", []⟩ ::
        [.record ⟨"Shop", "1", "öffnen", ["zoll", "pay"]⟩]

/-- The tables of the two stores differ, the saved disks do not. -/
theorem run_saved_canonically_of_swapped :
    (run laterFirst).ledgers ≠ (run earlierFirst).ledgers ∧
      (run laterFirst).Agrees (run earlierFirst) ∧
        (run laterFirst).records =
            [⟨"Shop", "1", "zoll", ["pay"]⟩,
              ⟨"Shop", "1", "öffnen", ["zoll", "pay"]⟩,
              ⟨"Shop", "2", "pay", []⟩] ∧
          (run laterFirst).records.Pairwise
              (fun left right => orderKey left < orderKey right) ∧
            (run laterFirst).save .empty ⟨"features", "ledger"⟩ =
              (run earlierFirst).save .empty ⟨"features", "ledger"⟩ := by
  have agrees : (run laterFirst).Agrees (run earlierFirst) :=
    agrees_of_swap (by decide) (by decide)
  rcases run_saved_canonically laterFirst earlierFirst agrees with
    ⟨exported, alike⟩
  exact
    ⟨by decide, agrees, by decide, exported.ascending,
      alike.saves _ _⟩

end FeatureAtlas.Store
