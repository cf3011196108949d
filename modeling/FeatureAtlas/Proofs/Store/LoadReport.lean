import FeatureAtlas.Proofs.Jsonl.Contributions
import FeatureAtlas.Proofs.Store.Log

/-!
# What loading reports

A data file may hold any bytes, or be missing.  The store that is loaded is
the one that the valid ones among the decoded features and records make, put
and entered in the order of the files; all else is reported, in an order that
the files determine.  So every line of the feature file that is not blank is
either listed as a feature or warned of.
-/

namespace FeatureAtlas

/-- The file that a warning is about; only features can be duplicates. -/
def LoadWarning.file : LoadWarning → DataFile
  | .malformedLine file _ => file
  | .invalidRecord file _ _ => file
  | .duplicateFeature _ => .features

/-- A path leads to a file with some content, or to nothing. -/
def Disk.Holds (disk : Disk) (path : String) : Option Bytes → Prop
  | some content => disk.read path = .ok content
  | none => disk.read path = .error .missing

namespace Store

/-! ## Warnings -/

/-- The features that pass their checks. -/
def validFeatures (features : List Feature) : List Feature :=
  features.filter fun feature => feature.IsValid

/-- The records that pass their checks. -/
def validRecords (records : List InvocationRecord) : List InvocationRecord :=
  records.filter fun record => record.IsValid

/--
The warning of a decoded feature, which has an index among all of them: it is
invalid, or a valid one before it has its identity.
-/
def featureWarning? (features : List Feature) (entry : Feature × Nat) :
    Option LoadWarning :=
  let (feature, index) := entry
  match feature.defect? with
  | some defect => some (.invalidRecord .features (index + 1) defect)
  | none =>
    if feature.id ∈ (validFeatures (features.take index)).map (·.id) then
      some (.duplicateFeature feature.id)
    else none

/-- The warning of a decoded record that is invalid. -/
def recordWarning? (entry : InvocationRecord × Nat) : Option LoadWarning :=
  entry.1.defect?.map (.invalidRecord .invocations (entry.2 + 1))

def featureWarnings (features : List Feature) : List LoadWarning :=
  features.zipIdx.filterMap (featureWarning? features)

def recordWarnings (records : List InvocationRecord) : List LoadWarning :=
  records.zipIdx.filterMap recordWarning?

/-! ## Taking features -/

theorem valid_of_mem_validFeatures
    {features : List Feature} {feature : Feature}
    (member : feature ∈ validFeatures features) :
    feature.IsValid :=
  of_decide_eq_true (List.mem_filter.mp member).2

theorem validFeatures_append (first second : List Feature) :
    validFeatures (first ++ second) =
      validFeatures first ++ validFeatures second :=
  List.filter_append ..

/-- What the loader has after some of the features: the valid ones are in the store. -/
theorem takeFeature_next
    (before later : List Feature) (feature : Feature)
    (warnings : List LoadWarning) :
    takeFeature ⟨empty.putAll (validFeatures before), warnings⟩
        (feature, before.length) =
      ⟨empty.putAll (validFeatures (before ++ [feature])),
        warnings ++
          (featureWarning? (before ++ feature :: later)
            (feature, before.length)).toList⟩ := by
  have seen :
      (before ++ feature :: later).take before.length = before :=
    List.take_left
  rw [takeFeature, featureWarning?, validFeatures_append, putAll_append, seen]
  cases checked : feature.defect? with
  | some defect =>
      have dropped : validFeatures [feature] = [] := by
        simp [validFeatures, Feature.IsValid, checked]
      rw [dropped]
      rfl
  | none =>
      have kept : validFeatures [feature] = [feature] := by
        simp [validFeatures, Feature.IsValid, checked]
      have valid :
          ∀ feature ∈ validFeatures before, feature.IsValid :=
        fun _ => valid_of_mem_validFeatures
      have known :
          ((empty.putAll (validFeatures before)).put feature).1 = true ↔
            feature.id ∈ (validFeatures before).map (·.id) := by
        rw [(sound_empty.putAll valid).put_fst,
          sound_empty.map_id_putAll valid]
        exact Distinct.mem_ofList _ _
      have put :
          (empty.putAll (validFeatures before)).putAll [feature] =
            ((empty.putAll (validFeatures before)).put feature).2 :=
        rfl
      rw [kept, put]
      cases answer : (empty.putAll (validFeatures before)).put feature with
      | mk replaced next =>
          rw [answer] at known
          cases replaced with
          | true =>
              simp only [if_pos (known.mp rfl)]
              rfl
          | false =>
              have fresh := mt known.mpr Bool.false_ne_true
              simp only [if_neg fresh, Option.toList_none, List.append_nil]

/-- What the loader has after all features. -/
theorem foldl_takeFeature_from
    (before later : List Feature) (warnings : List LoadWarning) :
    (later.zipIdx before.length).foldl takeFeature
        ⟨empty.putAll (validFeatures before), warnings⟩ =
      ⟨empty.putAll (validFeatures (before ++ later)),
        warnings ++
          (later.zipIdx before.length).filterMap
            (featureWarning? (before ++ later))⟩ := by
  induction later generalizing before warnings with
  | nil => simp
  | cons feature later induction =>
      -- What is taken joins what is behind, and the index grows with it.
      have next := takeFeature_next before later feature warnings
      have rest := induction (before ++ [feature])
      rw [List.length_append, List.length_singleton] at rest
      rw [List.zipIdx_cons, List.foldl_cons, next, rest,
        List.append_assoc before, List.singleton_append]
      rw [List.filterMap_eq_flatMap_toList,
        List.filterMap_eq_flatMap_toList, List.flatMap_cons,
        List.append_assoc]

theorem takeFeatures
    (features : List Feature) (warnings : List LoadWarning) :
    features.zipIdx.foldl takeFeature ⟨empty, warnings⟩ =
      ⟨empty.putAll (validFeatures features),
        warnings ++ featureWarnings features⟩ :=
  foldl_takeFeature_from [] features warnings

/-! ## Taking records -/

theorem takeRecords
    (loading : Loading) (records : List InvocationRecord) (count : Nat) :
    (records.zipIdx count).foldl takeRecord loading =
      ⟨(validRecords records).foldl enter loading.store,
        loading.warnings ++
          (records.zipIdx count).filterMap recordWarning?⟩ := by
  induction records generalizing loading count with
  | nil => simp [validRecords]
  | cons record records induction =>
      rw [List.zipIdx_cons, List.foldl_cons, induction, takeRecord]
      cases checked : record.defect? with
      | some defect =>
          have dropped :
              validRecords (record :: records) = validRecords records := by
            simp [validRecords, InvocationRecord.IsValid, checked]
          have warned :
              recordWarning? (record, count) =
                some (.invalidRecord .invocations (count + 1) defect) := by
            rw [recordWarning?, checked, Option.map_some]
          rw [dropped, List.filterMap_cons_some warned, List.append_assoc,
            List.singleton_append]
      | none =>
          have kept :
              validRecords (record :: records) =
                record :: validRecords records := by
            simp [validRecords, InvocationRecord.IsValid, checked]
          have silent : recordWarning? (record, count) = none := by
            rw [recordWarning?, checked, Option.map_none]
          rw [kept, List.filterMap_cons_none silent, List.foldl_cons]

/-- What decoded lines make: a store of what is valid, and warnings of the rest in order. -/
theorem ofReadings_eq
    (features : Jsonl.Reading Feature)
    (records : Jsonl.Reading InvocationRecord) :
    ofReadings features records =
      ⟨empty.extend (validFeatures features.records)
          (validRecords records.records),
        features.warnings.map (.malformedLine .features) ++
            records.warnings.map (.malformedLine .invocations) ++
          featureWarnings features.records ++
            recordWarnings records.records⟩ := by
  rw [ofReadings]
  simp only [takeFeatures, takeRecords]
  rfl

/-! ## Every feature is listed or warned of -/

/-- Of a decoded feature there is one more entry in the list, or one more warning. -/
theorem length_takeFeature (loading : Loading) (entry : Feature × Nat) :
    (takeFeature loading entry).store.features.length +
        (takeFeature loading entry).warnings.length =
      loading.store.features.length + loading.warnings.length + 1 := by
  rcases entry with ⟨feature, index⟩
  rw [takeFeature]
  cases checked : feature.defect? with
  | some defect =>
      simp only [List.length_append, List.length_singleton]
      exact (Nat.add_assoc _ _ 1).symm
  | none =>
      cases found : loading.store.positions.get? feature.id with
      | none =>
          simp only [put_of_missing found, List.length_append,
            List.length_singleton]
          exact Nat.add_right_comm _ 1 _
      | some position =>
          simp only [put_of_found found, List.length_set,
            List.length_append, List.length_singleton]
          exact (Nat.add_assoc _ _ 1).symm

theorem length_foldl_takeFeature
    (loading : Loading) (entries : List (Feature × Nat)) :
    (entries.foldl takeFeature loading).store.features.length +
        (entries.foldl takeFeature loading).warnings.length =
      loading.store.features.length + loading.warnings.length +
        entries.length := by
  induction entries generalizing loading with
  | nil => rfl
  | cons entry entries induction =>
      rw [List.foldl_cons, induction, length_takeFeature,
        List.length_cons, Nat.add_assoc, Nat.add_comm 1]

theorem length_features (features : List Feature) :
    features.length =
      (empty.putAll (validFeatures features)).features.length +
        (featureWarnings features).length := by
  have counted := length_foldl_takeFeature ⟨empty, []⟩ features.zipIdx
  rw [takeFeatures, List.length_zipIdx] at counted
  exact (Nat.zero_add _).symm.trans counted.symm

/-! ## Files -/

theorem readData_of_holds
    {α : Type} {disk : Disk} {path : String} {content? : Option Bytes}
    (holds : disk.Holds path content?) (reader : Json.Reader α) :
    readData disk path reader =
      .ok (Jsonl.read reader (content?.getD [])) := by
  rw [readData, Jsonl.readFrom]
  cases content? with
  | none =>
      have missing : disk.read path = .error .missing := holds
      rw [missing]
      rfl
  | some content =>
      have found : disk.read path = .ok content := holds
      rw [found]
      rfl

/-! ## The loaded store and the report -/

/-- The operations that the valid ones among decoded features and records amount to. -/
def operationsOf
    (features : List Feature) (records : List InvocationRecord) :
    List Operation :=
  (validFeatures features).map .upsert ++ (validRecords records).map .record

theorem run_operationsOf
    (features : List Feature) (records : List InvocationRecord) :
    run (operationsOf features records) =
      empty.extend (validFeatures features) (validRecords records) := by
  have valid :
      ∀ operation ∈ operationsOf features records,
        operation.loads = false ∧ operation.IsValid := by
    intro operation member
    rcases List.mem_append.mp member with upsert | record
    · rcases List.mem_map.mp upsert with ⟨feature, listed, rfl⟩
      have passed := valid_of_mem_validFeatures listed
      exact
        ⟨rfl, by
          simpa [Operation.IsValid, Operation.features, Operation.records]
            using passed⟩
    · rcases List.mem_map.mp record with ⟨entry, listed, rfl⟩
      have passed : entry.IsValid :=
        of_decide_eq_true (List.mem_filter.mp listed).2
      exact
        ⟨rfl, by
          simpa [Operation.IsValid, Operation.features, Operation.records]
            using passed⟩
  have unloaded :
      ∀ operation ∈ operationsOf features records,
        operation.loads = false :=
    fun operation member => (valid operation member).1
  have accepted :
      log (operationsOf features records) =
        operationsOf features records := by
    rw [log_eq_filter unloaded, List.filter_eq_self]
    intro operation member
    exact decide_eq_true (valid operation member).2
  have noRecords :
      ((validFeatures features).map Operation.upsert).flatMap
          Operation.records =
        [] := by
    simp [Operation.records]
  have noFeatures :
      ((validRecords records).map Operation.record).flatMap
          Operation.features =
        [] := by
    simp [Operation.features]
  rw [run_eq_extend unloaded, upserted, recorded, accepted, operationsOf,
    List.flatMap_append, List.flatMap_append, noRecords, noFeatures,
    List.append_nil, List.nil_append, List.flatMap_map, List.flatMap_map]
  exact
    congrArg₂ _ (List.flatMap_singleton' _) (List.flatMap_singleton' _)

theorem file_of_mem_featureWarnings
    {features : List Feature} {warning : LoadWarning}
    (member : warning ∈ featureWarnings features) :
    warning.file = .features := by
  rcases List.mem_filterMap.mp member with ⟨⟨feature, index⟩, -, warned⟩
  rw [featureWarning?] at warned
  cases checked : feature.defect? with
  | some defect =>
      simp only [checked, Option.some.injEq] at warned
      rw [← warned]
      rfl
  | none =>
      simp only [checked] at warned
      split at warned
      · rw [← Option.some.inj warned]
        rfl
      · cases warned

theorem file_of_mem_recordWarnings
    {records : List InvocationRecord} {warning : LoadWarning}
    (member : warning ∈ recordWarnings records) :
    warning.file = .invocations := by
  rcases List.mem_filterMap.mp member with ⟨entry, -, warned⟩
  rcases Option.map_eq_some_iff.mp warned with ⟨defect, -, rfl⟩
  rfl

/-- The warnings about the feature file among all that loading gives. -/
theorem filter_file
    (ofFeatures ofRecords : List Jsonl.Warning) (features : List Feature)
    (records : List InvocationRecord) :
    (ofFeatures.map (LoadWarning.malformedLine .features) ++
            ofRecords.map (LoadWarning.malformedLine .invocations) ++
          featureWarnings features ++ recordWarnings records).filter
        (fun warning => warning.file = .features) =
      ofFeatures.map (LoadWarning.malformedLine .features) ++
        featureWarnings features := by
  have linesKept :
      (ofFeatures.map (LoadWarning.malformedLine .features)).filter
          (fun warning => warning.file = .features) =
        ofFeatures.map (LoadWarning.malformedLine .features) := by
    simp [LoadWarning.file]
  have othersDropped :
      (ofRecords.map (LoadWarning.malformedLine .invocations)).filter
          (fun warning => warning.file = .features) =
        [] := by
    simp [LoadWarning.file]
  have featuresKept :
      (featureWarnings features).filter
          (fun warning => warning.file = .features) =
        featureWarnings features := by
    apply List.filter_eq_self.mpr
    intro warning member
    exact decide_eq_true (file_of_mem_featureWarnings member)
  have recordsDropped :
      (recordWarnings records).filter
          (fun warning => warning.file = .features) =
        [] := by
    apply List.filter_eq_nil_iff.mpr
    intro warning member
    rw [file_of_mem_recordWarnings member]
    decide
  rw [List.filter_append, List.filter_append, List.filter_append, linesKept,
    othersDropped, featuresKept, recordsDropped, List.append_nil,
    List.append_nil]

/-- What is loaded from the contents of the two files, and what is reported of them. -/
structure LosesNothing
    (features records : Bytes) (loading : Loading) : Prop where
  /-- The store is the one that the valid decoded features and records make, in file order. -/
  made :
    loading.store =
      run
        (operationsOf (Jsonl.decoded Feature.reader features)
          (Jsonl.decoded InvocationRecord.reader records))
  /-- Malformed lines are reported first, then decoded features, then decoded records. -/
  reported :
    loading.warnings =
      (Jsonl.malformed Feature.reader features).map
            (.malformedLine .features) ++
          (Jsonl.malformed InvocationRecord.reader records).map
            (.malformedLine .invocations) ++
        featureWarnings (Jsonl.decoded Feature.reader features) ++
          recordWarnings (Jsonl.decoded InvocationRecord.reader records)
  /-- Each line of the feature file that is not blank is listed or reported. -/
  balanced :
    ((Jsonl.lines features).filter (!Jsonl.isBlankLine ·)).length =
      loading.store.featureCount +
        (loading.warnings.filter (·.file = .features)).length

/-- Loading never fails on what the two files hold, be they missing, and loses nothing. -/
theorem load_loses_nothing
    {disk : Disk} {paths : DataPaths} {features? records? : Option Bytes}
    (featuresHeld : disk.Holds paths.features features?)
    (recordsHeld : disk.Holds paths.invocations records?) :
    ∃ loading,
      load disk paths = .ok loading ∧
        LosesNothing (features?.getD []) (records?.getD []) loading := by
  have loaded :
      load disk paths =
        .ok
          (ofReadings (Jsonl.read Feature.reader (features?.getD []))
            (Jsonl.read InvocationRecord.reader (records?.getD []))) := by
    rw [load, readData_of_holds featuresHeld, readData_of_holds recordsHeld]
    rfl
  rw [Jsonl.read_eq, Jsonl.read_eq, ofReadings_eq] at loaded
  refine ⟨_, loaded, (run_operationsOf _ _).symm, rfl, ?_⟩
  rw [filter_file, featureCount, features_extend, Jsonl.length_visible,
    length_features, List.length_append, List.length_map, Nat.add_assoc,
    Nat.add_comm (List.length (featureWarnings _))]

/-! ### A damaged file -/

/--
Bytes that are no text, a blank line, a feature, one without a title, the
first one again without its signature, and an unfinished line that is no JSON.
-/
def damaged : Bytes :=
  [0xFF, Jsonl.lineFeed, 0x20, Jsonl.carriageReturn, Jsonl.lineFeed] ++
    Jsonl.lineOf
      (Feature.toValue ⟨⟨"Shop", "", "Pay", "1"⟩, ["pay"]⟩) ++
      Jsonl.lineOf (Feature.toValue ⟨⟨"Shop", "", " ", "1"⟩, []⟩) ++
        Jsonl.lineOf (Feature.toValue ⟨⟨"Shop", "", "Pay", "1"⟩, []⟩) ++
          [0x78]

/-- A disk with the damaged file and nothing else. -/
def damagedDisk : Disk where
  nodes := ⟨[(["features"], .file damaged)]⟩

/-- One feature is listed, and the four other lines that are not blank are warned of. -/
theorem load_loses_nothing_of_damaged :
    damagedDisk.Holds "features" (some damaged) ∧
      damagedDisk.Holds "ledger" none ∧
        ∃ loading,
          load damagedDisk ⟨"features", "ledger"⟩ = .ok loading ∧
            loading.store.features =
                [⟨⟨"Shop", "", "Pay", "1"⟩, []⟩] ∧
              loading.warnings =
                  [.malformedLine .features (.notText 1),
                    .malformedLine .features (.malformed 6 .expectedValue),
                    .invalidRecord .features 2 .blankTitle,
                    .duplicateFeature ⟨"Shop", "", "Pay", "1"⟩] ∧
                5 =
                  loading.store.featureCount +
                    (loading.warnings.filter
                      (·.file = .features)).length := by
  have featuresHeld : damagedDisk.Holds "features" (some damaged) := rfl
  have recordsHeld : damagedDisk.Holds "ledger" none := rfl
  rcases
      @load_loses_nothing damagedDisk ⟨"features", "ledger"⟩ _ _ featuresHeld
        recordsHeld with
    ⟨loading, loaded, report⟩
  refine ⟨featuresHeld, recordsHeld, loading, loaded, ?_, ?_, ?_⟩
  · exact (congrArg Store.features report.made).trans (by decide +kernel)
  · exact report.reported.trans (by decide +kernel)
  · exact Eq.trans (by decide +kernel) report.balanced

end Store

end FeatureAtlas
