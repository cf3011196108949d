import FeatureAtlas.Encoding.Feature
import FeatureAtlas.Encoding.Ledger
import FeatureAtlas.Proofs.Json.Refusals

/-!
# Features and ledger records that were written

The object that stands for a feature or for a ledger record is read back as
that feature or record, whatever texts it holds.  The two readers go different
ways: a ledger record fills its fields as their keys come, while a feature
sets the parts of its identity aside until its object has ended.
-/

namespace FeatureAtlas

open Json

namespace InvocationRecord

theorem gathers_members (record : InvocationRecord) :
    Gathers RecordParts.shape.member {}
      [("product", .text record.product), ("version", .text record.version),
        ("signature", .text record.signature),
        ("invoked_signatures", .texts record.invoked)]
      { product := some record.product
        version := some record.version
        signature := some record.signature
        invoked := some record.invoked } := by
  refine .cons rfl ((readText_takes record.product).into _) ?_
  refine .cons rfl ((readText_takes record.version).into _) ?_
  refine .cons rfl ((readText_takes record.signature).into _) ?_
  refine .cons rfl ((readList_takes_texts record.invoked).into _) ?_
  exact .nil _

/-- A written ledger record is read back. -/
theorem reader_takes (record : InvocationRecord) :
    reader.Takes record.toValue.written record :=
  (RecordShape.readWithin_takes (by decide) record.gathers_members rfl).into _

end InvocationRecord

namespace Feature

theorem gathers_members (feature : Feature) :
    Gathers Feature.member {}
      (feature.id.members ++
        [("direct_invocation_signatures", .texts feature.signatures)])
      ⟨some feature.signatures, feature.id.members.reverse⟩ := by
  refine .cons rfl ((readValue_takes_text _ feature.id.product).into _) ?_
  refine .cons rfl ((readValue_takes_text _ feature.id.group).into _) ?_
  refine .cons rfl ((readValue_takes_text _ feature.id.title).into _) ?_
  refine .cons rfl ((readValue_takes_text _ feature.id.version).into _) ?_
  refine .cons rfl ((readList_takes_texts feature.signatures).into _) ?_
  exact .nil _

/-- The parts of an identity are found among its own members. -/
theorem idAmong_members (id : FeatureId) :
    idAmong id.members = .ok id :=
  rfl

/-- A written feature is read back. -/
theorem reader_takes (feature : Feature) :
    reader.Takes feature.toValue.written feature := by
  intro rest
  rw [toValue, encode_object_append, reader, skipSpace_cons (by decide)]
  simp only [if_true, readAllMembers_written feature.gathers_members,
    List.reverse_reverse, idAmong_members, Option.getD_some, bind,
    Except.bind]

/-- All members of a ledger record are set aside, since none of them is a list of signatures. -/
theorem gathers_members_of_record (record : InvocationRecord) :
    Gathers Feature.member {}
      [("product", .text record.product), ("version", .text record.version),
        ("signature", .text record.signature),
        ("invoked_signatures", .texts record.invoked)]
      ⟨none,
        [("invoked_signatures", .texts record.invoked),
          ("signature", .text record.signature),
          ("version", .text record.version),
          ("product", .text record.product)]⟩ := by
  refine .cons rfl ((readValue_takes_text _ record.product).into _) ?_
  refine .cons rfl ((readValue_takes_text _ record.version).into _) ?_
  refine .cons rfl ((readValue_takes_text _ record.signature).into _) ?_
  refine .cons rfl ((readValue_takes_texts _ record.invoked).into _) ?_
  exact .nil _

/-- A written ledger record is no feature: it has no title. -/
theorem reader_refuses_record (record : InvocationRecord) :
    reader.Refuses record.toValue.written (.missingField "title") := by
  intro rest
  rw [InvocationRecord.toValue, encode_object_append, reader,
    skipSpace_cons (by decide)]
  simp only [if_true, readAllMembers_written (gathers_members_of_record record),
    bind, Except.bind]
  rfl

end Feature

end FeatureAtlas
