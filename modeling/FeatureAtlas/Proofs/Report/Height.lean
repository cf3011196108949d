import FeatureAtlas.Proofs.Disk.Replace
import FeatureAtlas.Proofs.Json.Refusals
import FeatureAtlas.Store.ReportFile

/-!
# How high a report may be

Each level of a forest of invocations takes up two containers, a list and the
objects in it, and the report takes up one for itself and one for its fields.
So a report file can be read if its forest is no higher than the containers
allow, and it is refused for its depth if it is higher, wherever the highest
tree stands and however wide the forest is.
-/

namespace FeatureAtlas

open Json

namespace Invocation

mutual

/-- The number of levels of an invocation tree. -/
def height : Invocation → Nat
  | .node _ invocations => heightAll invocations + 1

/-- The number of levels of a forest; the empty one has none. -/
def heightAll : List Invocation → Nat
  | [] => 0
  | invocation :: rest => max invocation.height (heightAll rest)

end

theorem heightAll_le_iff (forest : List Invocation) (bound : Nat) :
    heightAll forest ≤ bound ↔
      ∀ invocation ∈ forest, invocation.height ≤ bound := by
  induction forest with
  | nil => simp [heightAll]
  | cons invocation forest induction =>
      rw [heightAll, Nat.max_le, induction, List.forall_mem_cons]

theorem lt_heightAll_iff (forest : List Invocation) (bound : Nat) :
    bound < heightAll forest ↔
      ∃ invocation ∈ forest, bound < invocation.height := by
  rw [← Nat.not_le, heightAll_le_iff]
  simp

/-! ## Invocations -/

theorem toValues_eq_map (forest : List Invocation) :
    toValues forest = forest.map toValue := by
  induction forest with
  | nil => rfl
  | cons invocation forest induction =>
      rw [toValues, induction, List.map_cons]

theorem opens_toValue (invocation : Invocation) :
    Opens invocation.toValue := by
  cases invocation
  exact opens_object _

/-- A forest is read as a list if its trees are read. -/
theorem readForest_takes
    {room : Nat} {forest : List Invocation}
    (takes :
      ∀ tree ∈ forest, (readerWithin room).Takes tree.toValue.written tree) :
    (readList (some (readerWithin room))).Takes
      (Value.array (toValues forest)).written forest := by
  rw [toValues_eq_map]
  exact readList_takes takes fun tree _ => opens_toValue tree

/-- An invocation tree is read if there is room for all its levels. -/
theorem readerWithin_takes
    (room : Nat) (tree : Invocation) (fits : 2 * tree.height ≤ room) :
    (readerWithin room).Takes tree.toValue.written tree := by
  rcases tree with ⟨signature, below⟩
  rw [height] at fits
  match room with
  | 0 => omega
  | 1 => omega
  | room + 2 =>
      have lower : heightAll below ≤ room / 2 := by omega
      have each :
          ∀ child ∈ below,
            (readerWithin room).Takes child.toValue.written child := by
        intro child member
        have bound := (heightAll_le_iff below _).mp lower child member
        exact readerWithin_takes room child (by omega)
      have list := readForest_takes each
      have gathers :
          Gathers (InvocationParts.shape (some (readerWithin room))).member {}
            [("signature", .text signature),
              ("invocations", .array (toValues below))]
            { signature := some signature, invocations := some below } := by
        refine .cons rfl ((readText_takes signature).into _) ?_
        exact .cons rfl (list.into _) (.nil _)
      exact
        (RecordShape.readWithin_takes (Nat.succ_ne_zero _) gathers rfl).into _

/-- A forest is too deep if some tree of it is; lower trees before it are read. -/
theorem readForest_refuses
    {room : Nat} {forest : List Invocation}
    (refuses :
      ∀ tree : Invocation,
        room < 2 * tree.height →
          (readerWithin room).Refuses tree.toValue.written .tooDeep)
    (high : room / 2 < heightAll forest) :
    (readList (some (readerWithin room))).Refuses
      (Value.array (toValues forest)).written .tooDeep := by
  rcases (lt_heightAll_iff forest _).mp high with ⟨tree, member, exceeds⟩
  have each :
      ∀ tree ∈ forest,
        (readerWithin room).Takes tree.toValue.written tree ∨
          (readerWithin room).Refuses tree.toValue.written .tooDeep := by
    intro tree _
    exact
      (Nat.lt_or_ge room (2 * tree.height)).symm.imp
        (readerWithin_takes room tree) (refuses tree)
  rw [toValues_eq_map]
  exact
    readList_refuses each (fun tree _ => opens_toValue tree)
      ⟨tree, member, refuses tree (by omega)⟩

/-- An invocation tree is too deep if there is no room for all its levels. -/
theorem readerWithin_refuses
    (room : Nat) (tree : Invocation) (high : room < 2 * tree.height) :
    (readerWithin room).Refuses tree.toValue.written .tooDeep := by
  rcases tree with ⟨signature, below⟩
  rw [height] at high
  have signed (inner? : Option (Reader Invocation)) :
      Gathers (InvocationParts.shape inner?).member {}
        [("signature", .text signature)]
        { signature := some signature } :=
    .cons rfl ((readText_takes signature).into _) (.nil _)
  match room with
  | 0 => exact (RecordShape.readWithin_zero_refuses _).into _
  | 1 =>
      exact
        (RecordShape.readWithin_refuses Nat.one_ne_zero (signed none) rfl
          ((readList_none_refuses _ _).into _)).into _
  | room + 2 =>
      have list :=
        readForest_refuses (readerWithin_refuses room)
          (by omega : room / 2 < heightAll below)
      exact
        (RecordShape.readWithin_refuses (Nat.succ_ne_zero _) (signed _) rfl
          (list.into _)).into _

end Invocation

namespace Report

/-- The number of levels of the forest of a report. -/
def height (report : Report) : Nat :=
  Invocation.heightAll report.roots

/-! ## Reports -/

theorem gathers_names (report : Report) :
    Gathers ReportParts.shape.member {}
      [("product", .text report.product), ("version", .text report.version)]
      { product := some report.product, version := some report.version } := by
  refine .cons rfl ((readText_takes report.product).into _) ?_
  exact .cons rfl ((readText_takes report.version).into _) (.nil _)

/-- A report is read if its forest is not too high. -/
theorem reader_takes_of_le
    {report : Report} (low : report.height ≤ 62) :
    reader.Takes report.toValue.written report := by
  have each :
      ∀ root ∈ report.roots,
        (Invocation.readerWithin (greatestDepth - 2)).Takes
          root.toValue.written root := by
    intro root member
    have bound := (Invocation.heightAll_le_iff _ _).mp low root member
    exact Invocation.readerWithin_takes _ root (by rw [greatestDepth]; omega)
  have list := Invocation.readForest_takes each
  have gathers :
      Gathers ReportParts.shape.member {}
        [("product", .text report.product), ("version", .text report.version),
          ("rootInvocations", .array (Invocation.toValues report.roots))]
        { product := some report.product
          version := some report.version
          roots := some report.roots } := by
    refine .cons rfl ((readText_takes report.product).into _) ?_
    refine .cons rfl ((readText_takes report.version).into _) ?_
    exact .cons rfl (list.into _) (.nil _)
  exact (RecordShape.readWithin_takes (by decide) gathers rfl).into _

/-- A report whose forest is too high is refused for its depth. -/
theorem reader_refuses_of_lt
    {report : Report} (high : 62 < report.height) :
    reader.Refuses report.toValue.written .tooDeep := by
  have higher :
      (greatestDepth - 2) / 2 < Invocation.heightAll report.roots := high
  have list :=
    Invocation.readForest_refuses (Invocation.readerWithin_refuses _) higher
  have deep : greatestDepth ≠ 0 := by decide
  exact
    (RecordShape.readWithin_refuses deep report.gathers_names rfl
      (list.into _)).into _

/-! ## Report files -/

/-- A report is loaded by reading its file as a document. -/
theorem load_of_read
    {disk : Disk} {path : String} {content : Bytes}
    (found : disk.read path = .ok content) :
    load disk path = (readDocument reader content).mapError .json := by
  rw [load, found]
  rfl

theorem load_of_holds
    {disk : Disk} {path : String} {report : Report}
    (holds : disk.read path = .ok (Utf8.ofText report.toValue.compact)) :
    load disk path =
      (readDocument reader (Utf8.encode report.toValue.written)).mapError
        .json := by
  rw [load_of_read holds, Utf8.ofText, Value.compact, String.toList_ofList]

theorem load_of_lt
    {disk : Disk} {path : String} {report : Report}
    (holds : disk.read path = .ok (Utf8.ofText report.toValue.compact))
    (high : 62 < report.height) :
    load disk path = .error (.json .tooDeep) := by
  rw [load_of_holds holds, readDocument_of_refuses (reader_refuses_of_lt high)]
  rfl

/--
A file that holds a printed report is loaded as that report if the forest has
at most 62 levels, and it is refused for its depth if there are more.
-/
theorem load_compact_by_height
    (disk : Disk) (path : String) (report : Report)
    (holds : disk.read path = .ok (Utf8.ofText report.toValue.compact)) :
    load disk path =
      if report.height ≤ 62 then .ok report else .error (.json .tooDeep) := by
  split
  · rename_i low
    rw [load_of_holds holds,
      readDocument_of_takes (reader_takes_of_le low)]
    rfl
  · rename_i high
    exact load_of_lt holds (Nat.lt_of_not_le high)

/-- A tree in which every invocation but the last one makes another. -/
def links : Nat → Invocation
  | 0 => .node "last" []
  | more + 1 => .node "link" [links more]

/-- A report of one chain of calls. -/
def chain (calls : Nat) : Report :=
  ⟨"Shop", "1", [links calls]⟩

theorem height_links (calls : Nat) : (links calls).height = calls + 1 := by
  induction calls with
  | zero => rfl
  | succ calls induction =>
      rw [links, Invocation.height, Invocation.heightAll, induction,
        Invocation.heightAll, Nat.max_zero]

theorem height_chain (calls : Nat) : (chain calls).height = calls + 1 := by
  rw [height, chain, Invocation.heightAll, height_links,
    Invocation.heightAll, Nat.max_zero]

/-- A disk with nothing but a file that holds a printed report. -/
def reportDisk (report : Report) : Disk :=
  Disk.empty.put ["report"] (.file (Utf8.ofText report.toValue.compact))

theorem read_reportDisk (report : Report) :
    (reportDisk report).read "report" =
      .ok (Utf8.ofText report.toValue.compact) := by
  have located : (reportDisk report).locate "report" = .ok ["report"] := rfl
  have standing :
      (reportDisk report).node? ["report"] =
        some (.file (Utf8.ofText report.toValue.compact)) := by
    rw [reportDisk, Disk.node?_put _ _ (by decide), if_pos rfl]
  exact
    Disk.read_eq_ok_iff.mpr ⟨by decide, ["report"], located, standing⟩

/-- A chain of 61 calls is loaded, and a chain of 62 calls is too deep. -/
theorem load_compact_by_height_of_chains :
    load (reportDisk (chain 61)) "report" = .ok (chain 61) ∧
      load (reportDisk (chain 62)) "report" = .error (.json .tooDeep) := by
  have shorter :=
    load_compact_by_height _ "report" (chain 61) (read_reportDisk _)
  have longer :=
    load_compact_by_height _ "report" (chain 62) (read_reportDisk _)
  rw [height_chain] at shorter longer
  exact ⟨shorter, longer⟩

/-- Not every printed report can be loaded. -/
theorem load_refuses_chain :
    ¬∀ (disk : Disk) (path : String) (report : Report),
      disk.read path = .ok (Utf8.ofText report.toValue.compact) →
        load disk path = .ok report := by
  intro law
  have high : 62 < (chain 62).height := by
    rw [height_chain]
    decide
  have loaded := law _ "report" (chain 62) (read_reportDisk _)
  cases loaded.symm.trans (load_of_lt (read_reportDisk _) high)

end Report

end FeatureAtlas
