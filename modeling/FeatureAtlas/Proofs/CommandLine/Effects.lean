import FeatureAtlas.CommandLine.Execution
import FeatureAtlas.Proofs.Repository.Reopening
import FeatureAtlas.Proofs.Store.Ingestion

/-!
# What commands do to the disk

Commands that only ask leave the disk alone, whatever comes of them.  A report
is recorded in three steps, each of which can refuse it, before anything is
written; once it is recorded, the repository is saved and can be opened again.
-/

namespace FeatureAtlas.CommandLine

/-! ## Asking -/

/-- Whether a command only asks. -/
def Command.asks : Command → Bool
  | .info => true
  | .roots _ => true
  | .graph _ => true
  | .deps _ _ => true
  | .cycles _ => true
  | .init _ => false
  | .ingest _ => false

section Asking

variable (disk : Disk) (context : Context)

theorem disk_of_query
    (answer : Output.Appearance → Repository → Except Error String) :
    (query disk context answer).disk = disk := by
  rw [query]
  split
  · rfl
  · rfl

/-- A command that only asks leaves the disk alone. -/
theorem disk_of_asks
    (json : Bool) {command : Command} (asks : command.asks = true) :
    (Request.run ⟨json, some command⟩ disk context).disk = disk := by
  cases command with
  | info => exact disk_of_query _ _ _
  | roots filter => exact disk_of_query _ _ _
  | graph target => exact disk_of_query _ _ _
  | deps target reverse => exact disk_of_query _ _ _
  | cycles filter => exact disk_of_query _ _ _
  | init quiet => cases asks
  | ingest path => cases asks

end Asking

/-! ## Recording a report -/

section Recording

variable {disk : Disk} {context : Context} {path : String}

/--
Why a report is not recorded: the repository cannot be opened, the report
cannot be read or decoded, or a record of it is invalid.
-/
inductive Refused
    (disk : Disk) (context : Context) (path : String) (error : Error) : Prop
  | unopened
      (failed : context.repository disk = .error error)
  | unread {repository : Repository}
      (opened : context.repository disk = .ok repository)
      (failed :
        Report.load disk (Path.join context.directory path) = .error error)
  | invalid {repository : Repository} {report : Report}
      (opened : context.repository disk = .ok repository)
      (loaded :
        Report.load disk (Path.join context.directory path) = .ok report)
      (failed :
        (repository.store.recordAll report.flatten).1 = .error error)

/-- The repository is opened, the report is loaded and all its records are entered. -/
structure Accepted
    (disk : Disk) (context : Context) (path : String)
    (repository : Repository) (report : Report) : Prop where
  opened : context.repository disk = .ok repository
  loaded : Report.load disk (Path.join context.directory path) = .ok report
  valid : (repository.store.recordAll report.flatten).1 = .ok ()

/-- The repository with the records of a report entered. -/
def withReport (repository : Repository) (report : Report) : Repository :=
  { repository with
    store := (repository.store.recordAll report.flatten).2 }

theorem refused_or_accepted
    (disk : Disk) (context : Context) (path : String) :
    (∃ error, Refused disk context path error) ∨
      ∃ repository report, Accepted disk context path repository report := by
  cases opened : context.repository disk with
  | error error => exact Or.inl ⟨error, .unopened opened⟩
  | ok repository =>
      cases loaded : Report.load disk (Path.join context.directory path) with
      | error error => exact Or.inl ⟨error, .unread opened loaded⟩
      | ok report =>
          cases valid : (repository.store.recordAll report.flatten).1 with
          | error error => exact Or.inl ⟨error, .invalid opened loaded valid⟩
          | ok done => exact Or.inr ⟨repository, report, opened, loaded, valid⟩

/-- What is refused is reported, and nothing else happens. -/
theorem ingested_of_refused
    {error : Error} (refused : Refused disk context path error) :
    ingested disk context path = .error error := by
  rw [ingested]
  cases refused with
  | unopened failed => simp only [bind, Except.bind, failed]
  | unread opened failed => simp only [bind, Except.bind, opened, failed]
  | @invalid repository report opened loaded failed =>
      simp only [bind, Except.bind, opened, loaded, Store.ingest]
      cases recorded : repository.store.recordAll report.flatten with
      | mk result next =>
          rw [recorded] at failed
          simp only at failed
          subst failed
          rfl

/-- What is accepted is recorded in the store of the repository. -/
theorem ingested_of_accepted
    {repository : Repository} {report : Report}
    (accepted : Accepted disk context path repository report) :
    ∃ summary,
      ingested disk context path =
        .ok (summary, withReport repository report) := by
  rw [ingested, withReport]
  simp only [bind, Except.bind, accepted.opened, accepted.loaded,
    Store.ingest]
  have valid := accepted.valid
  cases recorded : repository.store.recordAll report.flatten with
  | mk result next =>
      rw [recorded] at valid
      simp only at valid
      subst valid
      exact ⟨_, rfl⟩

/-- Recording refuses the report, or saves the repository with the report recorded. -/
theorem runIngest_cases
    (json : Bool) (disk : Disk) (context : Context) (path : String) :
    (∃ error,
      Refused disk context path error ∧
        runIngest json disk context path = ⟨"", .error error, disk⟩) ∨
      ∃ repository report,
        Accepted disk context path repository report ∧
          (runIngest json disk context path).result =
              ((withReport repository report).save disk).1 ∧
            (runIngest json disk context path).disk =
              ((withReport repository report).save disk).2 := by
  rcases refused_or_accepted disk context path with
    ⟨error, refused⟩ | ⟨repository, report, accepted⟩
  · refine Or.inl ⟨error, refused, ?_⟩
    rw [runIngest, ingested_of_refused refused]
  · refine Or.inr ⟨repository, report, accepted, ?_⟩
    rcases ingested_of_accepted accepted with ⟨summary, made⟩
    rw [runIngest, made]
    simp only
    split
    · rename_i failed later saved
      rw [saved]
      exact ⟨rfl, rfl⟩
    · rename_i done later saved
      rw [saved]
      exact ⟨rfl, rfl⟩

end Recording

/-! ## The recorded report -/

/--
What a later disk holds once a report was recorded from a directory.  The root
is found from itself, and from that directory unless a data file shadows it.
-/
structure Recorded
    (disk later : Disk) (context : Context) (repository : Repository)
    (report : Report) : Prop where
  rooted :
    Repository.findRoot later repository.root = some repository.root
  climbed :
    repository.Unshadowed disk context.directory →
      Repository.findRoot later context.directory = some repository.root
  /-- Wherever the repository is opened from, it holds what was loaded and recorded. -/
  reopened :
    ∀ below,
      Repository.findRoot later below = some repository.root →
        ∃ store,
          Repository.openFrom later below context.decode =
              .ok ⟨repository.root, repository.configuration, store, []⟩ ∧
            store.features = repository.store.features ∧
              ∀ scope signature,
                (store.ledger scope).get? signature =
                  ((repository.store.recordAll report.flatten).2.ledger
                    scope).get? signature

/-- What comes of recording a report, and what becomes of the disk. -/
structure IngestsWhole
    (disk : Disk) (context : Context) (path : String)
    (outcome : Outcome) : Prop where
  /-- A refused report leaves the disk alone. -/
  refused :
    ∀ error,
      Refused disk context path error →
        outcome = ⟨"", .error error, disk⟩
  /-- Beside a refusal, only saving can fail. -/
  failed :
    ∀ error,
      outcome.result = .error error →
        Refused disk context path error ∨
          ∃ repository report,
            Accepted disk context path repository report ∧
              ((withReport repository report).save disk).1 = .error error
  /-- Whatever comes of it, only the data files and their temporary files are touched. -/
  confined :
    ∀ repository,
      context.repository disk = .ok repository →
        disk.Confined outcome.disk repository.paths.touched
  recorded :
    outcome.result = .ok () →
      ∃ repository report,
        Accepted disk context path repository report ∧
          (repository.Separate disk →
            Recorded disk outcome.disk context repository report)

section Saved

variable {disk later : Disk} {context : Context} {path : String}
  {repository : Repository} {report : Report}

/-- What is accepted and saved is recorded. -/
theorem Accepted.recorded
    (accepted : Accepted disk context path repository report)
    (separate : repository.Separate disk)
    (done : (withReport repository report).save disk = (.ok (), later)) :
    Recorded disk later context repository report := by
  rcases Repository.openFrom_eq_ok accepted.opened with
    ⟨found, configured, loaded⟩
  have sound : repository.store.Sound := Store.sound_load loaded
  have entered : (withReport repository report).store.Sound :=
    sound.after (.recordAll report.flatten)
  -- Entering a report changes neither the root nor the configuration.
  have same :
      Repository.loadConfiguration disk
          (Repository.configurationPath (withReport repository report).root)
          context.decode =
        .ok (withReport repository report).configuration :=
    configured
  have apart : (withReport repository report).Separate disk :=
    ⟨separate.data, separate.features, separate.invocations⟩
  have rooted := Repository.findRoot_root_of_save same done
  refine ⟨rooted, ?_, ?_⟩
  · intro unshadowed
    have climbed : (withReport repository report).Unshadowed disk context.directory :=
      unshadowed
    exact Repository.findRoot_of_save same done found climbed
  · intro below again
    rcases Repository.openFrom_of_save entered same apart done again with
      ⟨store, opened, agrees⟩
    exact
      ⟨store, opened,
        agrees.features.trans (Store.features_recordAll _ _),
        agrees.ledgers⟩

end Saved

theorem runIngest_whole
    (json : Bool) (disk : Disk) (context : Context) (path : String) :
    IngestsWhole disk context path (runIngest json disk context path) := by
  rcases runIngest_cases json disk context path with
    ⟨error, refused, outcome⟩ | ⟨repository, report, accepted, result, later⟩
  · refine ⟨?_, ?_, ?_, ?_⟩
    · intro other otherwise
      have reported :=
        (ingested_of_refused refused).symm.trans
          (ingested_of_refused otherwise)
      rw [outcome, Except.error.inj reported]
    · intro other failed
      rw [outcome] at failed
      exact Or.inl (Except.error.inj failed ▸ refused)
    · intro repository _
      rw [outcome]
      exact Disk.Confined.refl disk _
    · intro done
      rw [outcome] at done
      cases done
  · refine ⟨?_, ?_, ?_, ?_⟩
    · intro error refused
      rcases ingested_of_accepted accepted with ⟨summary, made⟩
      cases (ingested_of_refused refused).symm.trans made
    · intro error failed
      exact Or.inr ⟨repository, report, accepted, result.symm.trans failed⟩
    · intro other opened
      have same : repository = other :=
        Except.ok.inj (accepted.opened.symm.trans opened)
      subst same
      rw [later]
      exact Store.confined_save _ _ _
    · intro done
      refine ⟨repository, report, accepted, ?_⟩
      intro separate
      apply accepted.recorded separate
      rw [later, ← done, result]

/--
Recording a report goes wholly as it should, and a command that only asks
leaves the disk alone, however the context decodes configurations.
-/
theorem commands_keep_to_their_files
    (json : Bool) (disk : Disk) (context : Context) :
    (∀ path,
      IngestsWhole disk context path
        (Request.run ⟨json, some (.ingest path)⟩ disk context)) ∧
      ∀ command : Command,
        command.asks = true →
          (Request.run ⟨json, some command⟩ disk context).disk = disk :=
  ⟨fun path => runIngest_whole json disk context path,
    fun _ asks => disk_of_asks disk context json asks⟩

/-! ### A report for a shop -/

/-- A repository above the working directory, with a damaged line among its features. -/
def shelf : Disk where
  nodes :=
    ⟨[(["shop"], .directory), (["shop", "floor"], .directory),
      (["shop", ".trellis"], .directory),
      (["shop", ".trellis", "config.yaml"],
        .file
          (Utf8.ofText
            "features-file: catalog\ninvocations-file: floor/ledger\n")),
      (["shop", "catalog"],
        .file
          (Utf8.ofText "?\n" ++
            Jsonl.lineOf
              (Feature.toValue ⟨⟨"Shop", "", "Pay", "1"⟩, ["pay"]⟩))),
      (["shop", "floor", "report"],
        .file
          (Jsonl.lineOf
            (Report.toValue
              ⟨"Shop", "1", [.node "pay" [.node "charge" []]]⟩)))]⟩

def clerk : Context where
  directory := "/shop/floor"
  environment := .empty
  isTerminal := false

/-- What the shelf is opened as. -/
def shop : Repository where
  root := "/shop"
  configuration := ⟨"catalog", "floor/ledger", .all, .firstWins⟩
  store := (Store.empty.put ⟨⟨"Shop", "", "Pay", "1"⟩, ["pay"]⟩).2
  warnings := [.malformedLine .features (.malformed 1 .expectedValue)]

/--
The report is recorded, the damaged line is gone, and the repository is found
from the working directory again; the report itself is still there.
-/
theorem commands_keep_to_their_files_of_shelf :
    Repository.openFrom shelf clerk.directory = .ok shop ∧
      shop.Separate shelf ∧
        ∃ later store,
          (Request.run ⟨true, some (.ingest "report")⟩ shelf clerk).disk =
              later ∧
            Repository.openFrom later clerk.directory =
                .ok ⟨"/shop", shop.configuration, store, []⟩ ∧
              store.features = [⟨⟨"Shop", "", "Pay", "1"⟩, ["pay"]⟩] ∧
                (store.ledger ⟨"Shop", "1"⟩).get? "pay" = some ["charge"] ∧
                  (∀ content,
                    later.read "/shop/floor/report" = .ok content ↔
                      shelf.read "/shop/floor/report" = .ok content) ∧
                    (Request.run ⟨true, some .info⟩ shelf clerk).disk =
                      shelf := by
  have opened : Repository.openFrom shelf clerk.directory = .ok shop := by
    decide +kernel
  have done :
      (Request.run ⟨true, some (.ingest "report")⟩ shelf clerk).result =
        .ok () := by
    decide +kernel
  have entries :
      (Report.load shelf (Path.join clerk.directory "report")).map
          (·.flatten) =
        .ok [⟨"Shop", "1", "pay", ["charge"]⟩] := by
    decide +kernel
  have apart {path other : String} := @Disk.apart_of_ne shelf path other
  have separate : shop.Separate shelf := by
    refine ⟨⟨apart ?_, apart ?_⟩, apart ?_, apart ?_⟩
    all_goals decide +kernel
  have unshadowed : shop.Unshadowed shelf clerk.directory := by
    have passes :
        Repository.passed shelf clerk.directory = ["/shop/floor"] := by
      decide +kernel
    intro base member
    rw [passes, List.mem_singleton] at member
    subst member
    exact ⟨apart (by decide +kernel), apart (by decide +kernel)⟩
  have laws := commands_keep_to_their_files true shelf clerk
  rcases (laws.1 "report").recorded done with
    ⟨repository, report, accepted, whole⟩
  have same : repository = shop :=
    Except.ok.inj (accepted.opened.symm.trans opened)
  subst same
  rw [accepted.loaded] at entries
  have flattened : report.flatten = _ := Except.ok.inj entries
  have recorded := whole separate
  rcases recorded.reopened _ (recorded.climbed unshadowed) with
    ⟨store, again, features, ledgers⟩
  have confined := (laws.1 "report").confined shop opened
  refine
    ⟨opened, separate, _, store, rfl, again, features, ?_, ?_,
      laws.2 .info rfl⟩
  · rw [ledgers, flattened]
    decide
  · intro content
    apply confined.read_iff
    simp only [DataPaths.touched, List.mem_cons, List.not_mem_nil, or_false,
      forall_eq_or_imp, forall_eq]
    refine ⟨apart ?_, apart ?_, apart ?_, apart ?_⟩
    all_goals decide +kernel

end FeatureAtlas.CommandLine
