import FeatureAtlas.Proofs.Disk.Failure
import FeatureAtlas.Proofs.Store.SaveLoad

/-!
# Saves that fail

Each of the two files of a store is replaced as a whole or not at all, but
nothing joins the two.  A save that fails at the features leaves both files as
they were; one that fails at the invocations has replaced the features
already, and leaves the old ledger beside the new features.
-/

namespace FeatureAtlas

/-- Both disks have the same content at a path, or neither has a file there. -/
def Disk.SameFile (earlier later : Disk) (path : String) : Prop :=
  ∀ content,
    later.read path = .ok content ↔ earlier.read path = .ok content

namespace Store

/--
A save stopped at the feature file, which is not writable.  The ledger could
only be harmed in the place of the temporary file of the features.
-/
structure StopsAtFeatures
    (earlier later : Disk) (paths : DataPaths) : Prop where
  refused : ¬earlier.Writable paths.features
  features : earlier.SameFile later paths.features
  invocations :
    earlier.Apart paths.invocations (Path.temporary paths.features) →
      earlier.SameFile later paths.invocations

/-- A save replaced the feature file and stopped at the invocation file. -/
structure StopsAtInvocations
    (store : Store) (earlier later : Disk) (paths : DataPaths) : Prop where
  accepted : earlier.Writable paths.features
  refused : ¬earlier.Writable paths.invocations
  features :
    earlier.Apart paths.features (Path.temporary paths.invocations) →
      later.read paths.features = .ok store.featureText
  invocations :
    earlier.Apart paths.invocations paths.features →
      earlier.Apart paths.invocations (Path.temporary paths.features) →
        earlier.SameFile later paths.invocations

section Failure

variable {store : Store} {disk after : Disk} {paths : DataPaths}

theorem save_eq_error
    {error : Error} (failed : store.save disk paths = (.error error, after)) :
    (∃ problem,
      Jsonl.replace disk paths.features store.featureLines =
        (.error problem, after)) ∨
      ∃ between problem,
        Jsonl.replace disk paths.features store.featureLines =
            (.ok (), between) ∧
          Jsonl.replace between paths.invocations store.recordLines =
            (.error problem, after) := by
  unfold save at failed
  split at failed
  · rename_i problem stopped first
    cases failed
    exact Or.inl ⟨problem, first⟩
  · rename_i between first
    split at failed
    · rename_i problem stopped second
      cases failed
      exact Or.inr ⟨between, problem, first, second⟩
    · cases failed

theorem stopsAtFeatures_of_failed
    {problem : LinesError}
    (failed :
      Jsonl.replace disk paths.features store.featureLines =
        (.error problem, after)) :
    StopsAtFeatures disk after paths where
  refused := Jsonl.not_writable_of_failed store.content_featureLines failed
  features := fun _ => Jsonl.read_iff_of_failed failed
  invocations := by
    intro apart content
    apply (Jsonl.confined_of_failed failed).read_iff
    intro other member
    rw [List.mem_singleton.mp member]
    exact apart

theorem stopsAtInvocations_of_failed
    {between : Disk} {problem : LinesError}
    (done :
      Jsonl.replace disk paths.features store.featureLines =
        (.ok (), between))
    (failed :
      Jsonl.replace between paths.invocations store.recordLines =
        (.error problem, after)) :
    store.StopsAtInvocations disk after paths := by
  rcases Jsonl.confined_of_replace done with
    ⟨bytes, formed, written, confined⟩
  rw [content_featureLines, Except.ok.injEq] at formed
  subst formed
  refine ⟨Jsonl.writable_of_replace done, ?_, ?_, ?_⟩
  · rw [← confined.writable_iff]
    exact Jsonl.not_writable_of_failed store.content_recordLines failed
  · intro apart
    apply ((Jsonl.confined_of_failed failed).read_iff ?_).mpr written
    intro other member
    rw [List.mem_singleton.mp member]
    exact confined.apart_iff.mpr apart
  · intro apart aside content
    apply (Jsonl.read_iff_of_failed failed).trans
    apply confined.read_iff
    simp only [List.mem_cons, List.not_mem_nil, or_false, forall_eq_or_imp,
      forall_eq]
    exact ⟨aside, apart⟩

/--
A save that fails leaves both files as they were, or has replaced the features
and leaves the ledger as it was.
-/
theorem failed_save_stops_at_a_file
    {error : Error} (failed : store.save disk paths = (.error error, after)) :
    StopsAtFeatures disk after paths ∨
      store.StopsAtInvocations disk after paths := by
  rcases save_eq_error failed with ⟨problem, first⟩ | ⟨between, problem, done, second⟩
  · exact Or.inl (stopsAtFeatures_of_failed first)
  · exact Or.inr (stopsAtInvocations_of_failed done second)

end Failure

/-! ### Files that a failed save changes -/

/-- A disk with a feature file, whose text is no feature, and without a directory. -/
def unfinished : Disk where
  nodes := ⟨[(["features"], .file [0x61])]⟩

/-- The directory of the invocation file is missing. -/
def unfinishedPaths : DataPaths where
  features := "features"
  invocations := "missing/ledger"

/-- The save stops at the invocations, and the feature file has its new text. -/
theorem failed_save_stops_at_a_file_of_unfinished :
    ∃ after,
      (run brokenName).save unfinished unfinishedPaths =
          (.error (.dataFile (.file .missing)), after) ∧
        (run brokenName).StopsAtInvocations unfinished after
            unfinishedPaths ∧
          after.read unfinishedPaths.features =
              .ok (run brokenName).featureText ∧
            unfinished.SameFile after unfinishedPaths.invocations := by
  have failed :
      ((run brokenName).save unfinished unfinishedPaths).1 =
        .error (.dataFile (.file .missing)) := by
    decide +kernel
  have outcome := Prod.ext failed (Eq.refl _)
  rcases failed_save_stops_at_a_file outcome with stops | stops
  · exact
      absurd
        ⟨by decide, [], "features", by decide, by decide, by decide,
          by decide, by decide⟩
        stops.refused
  · have apart {path other : String} := @Disk.apart_of_ne unfinished path other
    exact
      ⟨_, outcome, stops, stops.features (apart (by decide)),
        stops.invocations (apart (by decide)) (apart (by decide))⟩

/-- A directory in the place of the features, and a ledger in that of their temporary file. -/
def clashing : Disk where
  nodes := ⟨[(["features"], .directory), (["features.tmp"], .file [0x61])]⟩

def clashingPaths : DataPaths where
  features := "features"
  invocations := "features.tmp"

/--
Under two different paths, a failed save has replaced the features, and
another one has emptied the ledger that it used as a temporary file.
-/
theorem failed_save_changes_files :
    (unfinishedPaths.features ≠ unfinishedPaths.invocations ∧
      (Store.empty.save unfinished unfinishedPaths).1 =
          .error (.dataFile (.file .missing)) ∧
        unfinished.read unfinishedPaths.features = .ok [0x61] ∧
          (Store.empty.save unfinished unfinishedPaths).2.read
              unfinishedPaths.features =
            .ok []) ∧
      clashingPaths.features ≠ clashingPaths.invocations ∧
        (Store.empty.save clashing clashingPaths).1 =
            .error (.dataFile (.file .isDirectory)) ∧
          clashing.read clashingPaths.invocations = .ok [0x61] ∧
            (Store.empty.save clashing clashingPaths).2.read
                clashingPaths.invocations =
              .ok [] := by
  decide +kernel

end Store

end FeatureAtlas
